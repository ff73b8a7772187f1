import VoxiUtil.ByteQueueC
import VoxiUtil.Limits
import VoxiUtil.Runs

/-!
A byte queue as a bounded queue of bytes: what it holds, and how its functions change
that. Up to 2^32 bytes an index that passes the assertions is the right one; up to
`INT_MAX` every index passes them.
-/
namespace VoxiUtil.ByteQueueFifo
open VoxiUtil.CString VoxiUtil.Runs VoxiUtil.Ring VoxiUtil.ByteQueueC
open VoxiUtil.Limits (intMax)

/-- What a queue holds, from its head to its tail. -/
structure Holding (bq : ByteQueue) (contents : Text) : Prop where
  head : bq.head < bq.size
  room : contents.length ≤ bq.size
  tail : bq.tail = (bq.head + contents.length) % bq.size
  full : bq.isFull = decide (contents.length = bq.size)
  bytes : held bq.buffer bq.size bq.head contents.length = contents

/-- Two states of a queue that differ at most in what it holds. -/
structure SameStream (next bq : ByteQueue) : Prop where
  size : next.size = bq.size
  ended : next.endOfStream = bq.endOfStream
  reported : next.endOfStreamReported = bq.endOfStreamReported

theorem SameStream.refl (bq : ByteQueue) : SameStream bq bq := ⟨rfl, rfl, rfl⟩

theorem SameStream.trans {a b c : ByteQueue} (first : SameStream a b) (second : SameStream b c) : SameStream a c :=
  ⟨first.size.trans second.size, first.ended.trans second.ended, first.reported.trans second.reported⟩

theorem advance_sound {size index bytes next : Nat} (small : size ≤ 2 ^ 32) (positive : 0 < size) (fits : index + bytes ≤ size)
    (advanced : advance size index bytes = some next) : next = (index + bytes) % size := by
  simp only [advance] at advanced
  split at advanced
  · rename_i inside
    cases advanced
    by_cases whole : index + bytes = size
    · rw [whole, Nat.mod_self]
      by_cases largest : size = 2 ^ 32
      · rw [largest]
        rfl
      · rw [Nat.mod_eq_of_lt (by omega), if_pos rfl]
    · rw [Nat.mod_eq_of_lt (show index + bytes < 2 ^ 32 by omega), if_neg whole, Nat.mod_eq_of_lt (by omega)]
  · cases advanced

theorem advance_defined {size index bytes : Nat} (small : size ≤ intMax) (fits : index + bytes ≤ size) :
    ∃ next, advance size index bytes = some next := by
  unfold intMax at small
  have kept : (index + bytes) % 2 ^ 32 = index + bytes := Nat.mod_eq_of_lt (by omega)
  simp only [advance, kept]
  rw [if_pos (by omega)]
  exact ⟨_, rfl⟩

section
variable {bq next : ByteQueue} {contents data : Text} {length : Nat}

/-! ### The indexes -/

theorem Holding.tail_cases (holding : Holding bq contents) (space : contents.length < bq.size) :
    (bq.head + contents.length < bq.size ∧ bq.tail = bq.head + contents.length) ∨
      (bq.size ≤ bq.head + contents.length ∧ bq.tail + bq.size = bq.head + contents.length) := by
  have head := holding.head
  rw [holding.tail]
  by_cases before : bq.head + contents.length < bq.size
  · exact .inl ⟨before, Nat.mod_eq_of_lt before⟩
  · rw [Nat.mod_eq_sub_mod (by omega), Nat.mod_eq_of_lt (by omega)]
    omega

theorem Holding.tail_full (holding : Holding bq contents) (filled : contents.length = bq.size) : bq.tail = bq.head := by
  rw [holding.tail, filled, Nat.add_mod_right, Nat.mod_eq_of_lt holding.head]

theorem Holding.tail_bound (holding : Holding bq contents) : bq.tail < bq.size := by
  rw [holding.tail]
  exact Nat.mod_lt _ (Nat.zero_lt_of_lt holding.head)

theorem Holding.meets (holding : Holding bq contents) : bq.head = bq.tail ↔ contents = [] ∨ contents.length = bq.size := by
  rw [holding.tail]
  by_cases empty : contents = []
  · subst empty
    exact iff_of_true (Nat.mod_eq_of_lt holding.head).symm (.inl rfl)
  · rw [around_iff holding.head (List.length_pos_of_ne_nil empty) holding.room]
    exact (or_iff_right empty).symm

theorem Holding.isFull_iff (holding : Holding bq contents) : byteQueueIsFull bq = true ↔ contents.length = bq.size := by
  rw [byteQueueIsFull, holding.full, Bool.and_eq_true, decide_eq_true_iff, beq_iff_eq, holding.meets]
  exact ⟨And.left, fun filled => ⟨filled, .inr filled⟩⟩

theorem Holding.space (holding : Holding bq contents) (unfilled : ¬ byteQueueIsFull bq = true) :
    contents.length < bq.size := by
  have room := holding.room
  have other : contents.length ≠ bq.size := fun filled => unfilled (holding.isFull_iff.mpr filled)
  omega

theorem Holding.isEmpty_iff (holding : Holding bq contents) : byteQueueIsEmpty bq = true ↔ contents = [] := by
  have positive := Nat.zero_lt_of_lt holding.head
  rw [byteQueueIsEmpty, holding.full, Bool.and_eq_true, beq_iff_eq, holding.meets, Bool.not_eq_true', decide_eq_false_iff_not]
  constructor
  · rintro ⟨empty | filled, other⟩
    · exact empty
    · exact absurd filled other
  · rintro rfl
    exact ⟨.inl rfl, Nat.ne_of_lt positive⟩

theorem Holding.writable_spec (holding : Holding bq contents) (space : contents.length < bq.size) :
    0 < writable bq ∧ contents.length + writable bq ≤ bq.size ∧ bq.tail + writable bq ≤ bq.size := by
  have head := holding.head
  unfold writable
  rcases holding.tail_cases space with ⟨_, tail⟩ | ⟨_, tail⟩
  · rw [if_neg (by omega)]
    omega
  · rw [if_pos (by omega)]
    omega

theorem Holding.readable_spec (holding : Holding bq contents) (any : contents ≠ []) :
    0 < readable bq ∧ readable bq ≤ contents.length ∧ bq.head + readable bq ≤ bq.size := by
  have head := holding.head
  have room := holding.room
  have positive := List.length_pos_of_ne_nil any
  unfold readable
  by_cases filled : contents.length = bq.size
  · have tail := holding.tail_full filled
    rw [if_pos (by omega)]
    omega
  · rcases holding.tail_cases (by omega) with ⟨_, tail⟩ | ⟨_, tail⟩
    · rw [if_neg (by omega)]
      omega
    · rw [if_pos (by omega)]
      omega

/-! ### Writing -/

/-- A turn of the loop stores the first bytes of the data. -/
theorem writeChunk_holding (holding : Holding bq contents) (small : bq.size ≤ 2 ^ 32) (space : contents.length < bq.size)
    {rest : Text} (copied : writeChunk bq data = some (next, rest)) :
    ∃ stored, data = stored ++ rest ∧ stored ≠ [] ∧ Holding next (contents ++ stored) ∧ SameStream next bq := by
  obtain ⟨_, fits, inside⟩ := holding.writable_spec space
  simp only [writeChunk] at copied
  split at copied
  · cases copied
  rename_i some
  obtain ⟨tail, advanced, shape⟩ := Option.map_eq_some_iff.mp copied
  have taken : (data.take (min (writable bq) data.length)).length = min (writable bq) data.length := by
    rw [List.length_take]
    omega
  have place := advance_sound small (by omega) (show bq.tail + _ ≤ bq.size by omega) advanced
  have behind : tail = (bq.head + (contents ++ data.take (min (writable bq) data.length)).length) % bq.size := by
    rw [place, holding.tail, Nat.mod_add_mod, List.length_append, taken, Nat.add_assoc]
  cases shape
  refine ⟨data.take (min (writable bq) data.length), (List.take_append_drop _ _).symm, ?_, ⟨holding.head, ?_, behind, ?_, ?_⟩,
    rfl, rfl, rfl⟩
  · intro empty
    rw [empty] at taken
    exact some taken.symm
  · rw [List.length_append, taken]
    show contents.length + _ ≤ bq.size
    omega
  · have before : bq.isFull = false := by rw [holding.full]; exact decide_eq_false (by omega)
    have meets := around_iff holding.head (show 0 < (contents ++ data.take (min (writable bq) data.length)).length by
      rw [List.length_append]; omega) (show _ ≤ bq.size by rw [List.length_append]; omega)
    simp only [before, behind, meets]
    split <;> simp_all
  · rw [List.length_append, held_written contents.length (by omega) holding.tail (by omega), holding.bytes]

theorem writeChunk_defined (holding : Holding bq contents) (small : bq.size ≤ intMax) (space : contents.length < bq.size)
    (more : data ≠ []) : ∃ out, writeChunk bq data = some out := by
  obtain ⟨positive, _, inside⟩ := holding.writable_spec space
  have longer := List.length_pos_of_ne_nil more
  obtain ⟨tail, advanced⟩ := advance_defined small (show bq.tail + min (writable bq) data.length ≤ bq.size by omega)
  simp only [writeChunk]
  rw [if_neg (by omega), advanced]
  exact ⟨_, rfl⟩

theorem writeLoop_eq (bq : ByteQueue) (data : Text) (wasEmpty : Bool) :
    writeLoop bq data wasEmpty =
      if data = [] then some (bq, true, [])
      else if byteQueueIsFull bq = true then some (bq, false, data)
      else (writeChunk bq data).bind fun out =>
        if (wasEmpty && byteQueueIsEmpty out.1) = true then none else writeLoop out.1 out.2 false := by
  rw [writeLoop]
  by_cases done : data = []
  · rw [dif_pos done, if_pos done]
  · rw [dif_neg done, if_neg done]
    by_cases full : byteQueueIsFull bq = true
    · rw [if_pos full, if_pos full]
    · rw [if_neg full, if_neg full]
      split <;> rename_i copied <;> rw [copied] <;> rfl

/-- The loop stores the data that there is room for, and says whether that is all of it. -/
theorem writeLoop_holding (holding : Holding bq contents) (small : bq.size ≤ 2 ^ 32) {wasEmpty noDrop : Bool} {left : Text}
    (ran : writeLoop bq data wasEmpty = some (next, noDrop, left)) :
    Holding next (contents ++ data.take (bq.size - contents.length)) ∧ noDrop = decide (data.length ≤ bq.size - contents.length) ∧
      left = data.drop (bq.size - contents.length) ∧ SameStream next bq := by
  induction remaining : data.length using Nat.strong_induction_on generalizing bq contents data wasEmpty with
  | _ n ih =>
    subst remaining
    rw [writeLoop_eq] at ran
    by_cases done : data = []
    · rw [if_pos done] at ran
      cases ran
      subst done
      simpa using ⟨holding, SameStream.refl _⟩
    rw [if_neg done] at ran
    by_cases full : byteQueueIsFull bq = true
    · rw [if_pos full] at ran
      cases ran
      have filled := holding.isFull_iff.mp full
      have longer := List.length_pos_of_ne_nil done
      rw [filled, Nat.sub_self, List.take_zero, List.append_nil]
      exact ⟨holding, (decide_eq_false (by omega)).symm, rfl, SameStream.refl _⟩
    · rw [if_neg full] at ran
      obtain ⟨⟨m, rest⟩, copied, again⟩ := Option.bind_eq_some_iff.mp ran
      split at again
      · cases again
      obtain ⟨stored, rfl, some, first, same⟩ := writeChunk_holding holding small (holding.space full) copied
      have positive := List.length_pos_of_ne_nil some
      have fits := first.room
      rw [List.length_append, same.size] at fits
      obtain ⟨kept, whole, dropped, others⟩ := ih rest.length (by rw [List.length_append]; omega) first (by rw [same.size]; exact small) again rfl
      have free : bq.size - contents.length = stored.length + (bq.size - (contents ++ stored).length) := by
        rw [List.length_append]
        omega
      rw [same.size, List.append_assoc] at kept
      refine ⟨?_, ?_, ?_, others.trans same⟩
      · rw [free, List.take_length_add_append]
        exact kept
      · rw [whole, same.size, free, @List.length_append _ stored rest]
        exact decide_eq_decide.mpr (by omega)
      · rw [dropped, same.size, free, List.drop_length_add_append]

theorem writeLoop_defined (holding : Holding bq contents) (small : bq.size ≤ intMax) (wasEmpty : Bool) :
    ∃ out, writeLoop bq data wasEmpty = some out := by
  induction remaining : data.length using Nat.strong_induction_on generalizing bq contents data wasEmpty with
  | _ n ih =>
    subst remaining
    rw [writeLoop_eq]
    by_cases done : data = []
    · rw [if_pos done]
      exact ⟨_, rfl⟩
    rw [if_neg done]
    by_cases full : byteQueueIsFull bq = true
    · rw [if_pos full]
      exact ⟨_, rfl⟩
    rw [if_neg full]
    have space := holding.space full
    obtain ⟨⟨m, rest⟩, copied⟩ := writeChunk_defined holding small space done
    have below : bq.size ≤ 2 ^ 32 := by unfold intMax at small; omega
    obtain ⟨stored, rfl, some, first, same⟩ := writeChunk_holding holding below space copied
    have positive := List.length_pos_of_ne_nil some
    have inside : byteQueueIsEmpty m ≠ true := by
      intro empty
      have nothing := first.isEmpty_iff.mp empty
      exact some (List.append_eq_nil_iff.mp nothing).2
    rw [copied, Option.bind_some]
    simp only [inside, Bool.and_false]
    exact ih rest.length (by rw [List.length_append]; omega) first (by rw [same.size]; exact small) false rfl

/-! ### Reading -/

/-- A turn of the loop takes the first bytes that the queue holds. -/
theorem readChunk_holding (holding : Holding bq contents) (small : bq.size ≤ 2 ^ 32) (any : contents ≠ []) {bytes : Text}
    (copied : readChunk bq length = some (next, bytes)) :
    ∃ rest, contents = bytes ++ rest ∧ bytes ≠ [] ∧ bytes.length ≤ length ∧ Holding next rest ∧ SameStream next bq := by
  obtain ⟨_, part, inside⟩ := holding.readable_spec any
  have head := holding.head
  have room := holding.room
  simp only [readChunk] at copied
  split at copied
  · cases copied
  rename_i positive
  split at copied
  · cases copied
  obtain ⟨newHead, advanced, shape⟩ := Option.map_eq_some_iff.mp copied
  have place := advance_sound small (by omega) (show bq.head + _ ≤ bq.size by omega) advanced
  have front := @held_front _ bq.buffer bq.size bq.head contents.length (min (readable bq) length) (by omega) (by omega)
  rw [holding.bytes, ← place] at front
  cases shape
  refine ⟨_, front, ?_, ?_, ⟨?_, ?_, ?_, ?_, ?_⟩, rfl, rfl, rfl⟩
  · intro empty
    have nothing := congrArg List.length empty
    rw [slice_length] at nothing
    exact positive nothing
  · rw [slice_length]
    exact Nat.min_le_right _ _
  · show newHead < bq.size
    rw [place]
    exact Nat.mod_lt _ (by omega)
  · rw [held_length]
    show contents.length - _ ≤ bq.size
    omega
  · show bq.tail = (newHead + _) % bq.size
    rw [holding.tail, place, held_length, Nat.mod_add_mod]
    congr 1
    omega
  · rw [held_length]
    show (if bq.head = bq.tail then false else bq.isFull) = decide (contents.length - _ = bq.size)
    rw [decide_eq_false (show ¬ contents.length - min (readable bq) length = bq.size by omega), holding.full]
    split
    · rfl
    · rename_i apart
      exact decide_eq_false fun filled => apart (holding.meets.mpr (.inr filled))
  · rw [held_length]

theorem readChunk_defined (holding : Holding bq contents) (small : bq.size ≤ intMax) (any : contents ≠ [])
    (positive : 0 < length) : ∃ out, readChunk bq length = some out := by
  obtain ⟨reaches, _, inside⟩ := holding.readable_spec any
  obtain ⟨head, advanced⟩ := advance_defined small (show bq.head + min (readable bq) length ≤ bq.size by omega)
  simp only [readChunk]
  rw [if_neg (by omega), if_neg, advanced]
  · exact ⟨_, rfl⟩
  · rintro ⟨meets, unfilled⟩
    rcases holding.meets.mp meets with empty | filled
    · exact any empty
    · rw [holding.full, decide_eq_true filled] at unfilled
      cases unfilled

theorem readLoop_eq (bq : ByteQueue) (length : Nat) (data : Text) :
    readLoop bq length data =
      if length = 0 then some (.ends, bq, data)
      else if byteQueueIsEmpty bq = true then
        if (bq.endOfStream && !bq.endOfStreamReported) = true then some (.ends, bq, data) else some (.waits, bq, data)
      else (readChunk bq length).bind fun out => readLoop out.1 (length - out.2.length) (data ++ out.2) := by
  rw [readLoop]
  by_cases done : length = 0
  · rw [dif_pos done, if_pos done]
  · rw [dif_neg done, if_neg done]
    by_cases empty : byteQueueIsEmpty bq = true
    · rw [if_pos empty, if_pos empty]
    · rw [if_neg empty, if_neg empty]
      split <;> rename_i copied <;> rw [copied] <;> rfl

/-- The end of a stream that has not been reported. -/
def Unreported (bq : ByteQueue) : Prop := bq.endOfStream = true ∧ bq.endOfStreamReported = false

instance (bq : ByteQueue) : Decidable (Unreported bq) := inferInstanceAs (Decidable (_ ∧ _))

theorem SameStream.unreported (same : SameStream next bq) : Unreported next ↔ Unreported bq := by
  rw [Unreported, Unreported, same.ended, same.reported]

/-- The loop takes as many bytes as are asked for and held. When they are too few it
    waits, but not at an end of stream that has not been reported. -/
theorem readLoop_holding (holding : Holding bq contents) (small : bq.size ≤ 2 ^ 32) {stop : Stop} {out : Text}
    (ran : readLoop bq length data = some (stop, next, out)) :
    out = data ++ contents.take length ∧ Holding next (contents.drop length) ∧ SameStream next bq ∧
      stop = if length ≤ contents.length ∨ Unreported bq then .ends else .waits := by
  induction length using Nat.strong_induction_on generalizing bq contents data with
  | _ length ih =>
    rw [readLoop_eq] at ran
    by_cases done : length = 0
    · subst done
      rw [if_pos rfl] at ran
      cases ran
      simpa using ⟨holding, SameStream.refl _⟩
    rw [if_neg done] at ran
    by_cases empty : byteQueueIsEmpty bq = true
    · obtain rfl := holding.isEmpty_iff.mp empty
      have short : ¬ length ≤ ([] : Text).length := by simpa using done
      rw [if_pos empty] at ran
      simp only [short, false_or, List.take_nil, List.drop_nil, List.append_nil]
      by_cases ended : Unreported bq
      · rw [if_pos (by simp [ended.1, ended.2])] at ran
        cases ran
        exact ⟨rfl, holding, SameStream.refl _, (if_pos ended).symm⟩
      · rw [if_neg (by simpa [Unreported] using ended)] at ran
        cases ran
        exact ⟨rfl, holding, SameStream.refl _, (if_neg ended).symm⟩
    · rw [if_neg empty] at ran
      obtain ⟨⟨m, bytes⟩, copied, again⟩ := Option.bind_eq_some_iff.mp ran
      have any : contents ≠ [] := fun nothing => empty (holding.isEmpty_iff.mpr nothing)
      obtain ⟨rest, rfl, nonempty, part, first, same⟩ := readChunk_holding holding small any copied
      have positive := List.length_pos_of_ne_nil nonempty
      obtain ⟨bytesOut, kept, others, stopped⟩ := ih (length - bytes.length) (by omega) first (by rw [same.size]; exact small) again
      have count : length = bytes.length + (length - bytes.length) := by omega
      refine ⟨?_, ?_, others.trans same, ?_⟩
      · rw [bytesOut, count, List.take_length_add_append, List.append_assoc, Nat.add_sub_cancel_left]
      · rw [count, List.drop_length_add_append]
        exact kept
      · have enough : length - bytes.length ≤ rest.length ↔ length ≤ (bytes ++ rest).length := by
          rw [List.length_append]
          omega
        simp only [stopped, same.unreported, enough]

theorem readLoop_defined (holding : Holding bq contents) (small : bq.size ≤ intMax) :
    ∃ out, readLoop bq length data = some out := by
  induction length using Nat.strong_induction_on generalizing bq contents data with
  | _ length ih =>
    rw [readLoop_eq]
    by_cases done : length = 0
    · rw [if_pos done]
      exact ⟨_, rfl⟩
    rw [if_neg done]
    by_cases empty : byteQueueIsEmpty bq = true
    · rw [if_pos empty]
      split <;> exact ⟨_, rfl⟩
    rw [if_neg empty]
    have any : contents ≠ [] := fun nothing => empty (holding.isEmpty_iff.mpr nothing)
    obtain ⟨⟨m, bytes⟩, copied⟩ := readChunk_defined holding small any (show 0 < length by omega)
    have below : bq.size ≤ 2 ^ 32 := by unfold intMax at small; omega
    obtain ⟨rest, rfl, nonempty, part, first, same⟩ := readChunk_holding holding below any copied
    have positive := List.length_pos_of_ne_nil nonempty
    rw [copied, Option.bind_some]
    exact ih (length - bytes.length) (by omega) first (by rw [same.size]; exact small)

end

/-- The flags of the stream have nothing to do with what is held. -/
theorem Holding.flags {bq : ByteQueue} {contents : Text} (holding : Holding bq contents) (ended reported : Bool) :
    Holding { bq with endOfStream := ended, endOfStreamReported := reported } contents :=
  ⟨holding.head, holding.room, holding.tail, holding.full, holding.bytes⟩

/-- The bytes in front of those that are left. -/
theorem take_dropped (data : Text) (count : Nat) : data.take (data.length - (data.drop count).length) = data.take count := by
  rw [List.length_drop, List.take_eq_take_iff]
  omega

/-! ### Calls one after another -/

/-- A queue, all the bytes that were stored in it and all that were read from it. -/
structure History where
  queue : ByteQueue
  stored : Text
  taken : Text

inductive Op where
  | write (data : Text)
  | read (readRequest : Nat)
  | endOfStream
  | startOfStream

/-- A call, all of it at once. A read or a start of a stream that would wait is none. -/
def step (s : History) : Op → Option History
  | .write data => (byteQueueWriteData s.queue data).map fun out =>
    { s with queue := out.1, stored := s.stored ++ data.take (data.length - out.2.2.length) }
  | .read readRequest => (readLoop s.queue readRequest []).bind fun out =>
    if out.1 = .waits then none
    else (readEnd out.2.1 readRequest out.2.2).map fun queue => { s with queue, taken := s.taken ++ out.2.2 }
  | .endOfStream => some { s with queue := byteQueueWriteEndOfStream s.queue }
  | .startOfStream =>
    if s.queue.endOfStream then (byteQueueWriteStartOfStream s.queue).map fun queue => { s with queue } else none

/-- Data is written only inside a stream, a read asks for a byte at least, and no call
    would wait. -/
def Enabled (s : History) : Op → Prop
  | .write _ => s.queue.endOfStream = false
  | .read readRequest => 0 < readRequest ∧ ∀ out, readLoop s.queue readRequest [] = some out → out.1 = .ends
  | .endOfStream => True
  | .startOfStream => s.queue.endOfStream = true ∧ s.queue.endOfStreamReported = true

/-- The room for further bytes. -/
def free (s : History) : Nat := s.queue.size - (s.stored.length - s.taken.length)

/-- A bounded queue, first in, first out. -/
structure Bounded (s : History) : Prop where
  head : s.queue.head < s.queue.size
  tail : s.queue.tail < s.queue.size
  full : s.queue.isFull = true → s.queue.head = s.queue.tail
  room : s.stored.length ≤ s.taken.length + s.queue.size
  order : s.taken <+: s.stored
  writes : s.queue.endOfStream = false → ∀ data, ∃ next,
    byteQueueWriteData s.queue data = some (next, decide (data.length ≤ free s), data.drop (free s))

/-- Any calls leave a new queue of this size bounded, and none of them fails. -/
def BoundedFifo (size : Nat) (block : Nat → UInt8) : Prop :=
  ∃ bq, byteQueueCreate size block = some bq ∧
    ∀ ops, Guarded step Enabled ⟨bq, [], []⟩ ops → ∃ s, run step ⟨bq, [], []⟩ ops = some s ∧ Bounded s

/-- The bytes that were stored are those that were read and then those that are held. -/
def Fifo (size : Nat) (s : History) : Prop :=
  s.queue.size = size ∧ ∃ contents, Holding s.queue contents ∧ s.stored = s.taken ++ contents

section
variable {size : Nat} {s t : History} {contents : Text}

theorem free_eq (sized : s.stored = s.taken ++ contents) : free s = s.queue.size - contents.length := by
  rw [free, sized, List.length_append]
  omega

theorem write_spec (small : s.queue.size ≤ intMax) (holding : Holding s.queue contents) (streaming : s.queue.endOfStream = false)
    (data : Text) : ∃ next, byteQueueWriteData s.queue data =
      some (next, decide (data.length ≤ s.queue.size - contents.length), data.drop (s.queue.size - contents.length)) ∧
      Holding next (contents ++ data.take (s.queue.size - contents.length)) ∧ SameStream next s.queue := by
  have below : s.queue.size ≤ 2 ^ 32 := by unfold intMax at small; omega
  obtain ⟨⟨next, noDrop, left⟩, ran⟩ := @writeLoop_defined _ _ data holding small (byteQueueIsEmpty s.queue)
  obtain ⟨kept, rfl, rfl, same⟩ := writeLoop_holding holding below ran
  refine ⟨next, ?_, kept, same⟩
  rw [byteQueueWriteData, streaming]
  exact ran

theorem fifo_bounded (small : size ≤ intMax) (fifo : Fifo size s) : Bounded s := by
  obtain ⟨rfl, contents, holding, sized⟩ := fifo
  have room := holding.room
  refine ⟨holding.head, holding.tail_bound, ?_, ?_, ⟨contents, sized.symm⟩, ?_⟩
  · intro full
    rw [holding.full, decide_eq_true_iff] at full
    exact holding.meets.mpr (.inr full)
  · rw [sized, List.length_append]
    omega
  · intro streaming data
    obtain ⟨next, ran, _⟩ := write_spec small holding streaming data
    rw [free_eq sized]
    exact ⟨next, ran⟩

/-- One call. -/
theorem step_fifo (small : size ≤ intMax) (fifo : Fifo size s) {op : Op} (enabled : Enabled s op) :
    ∃ t, step s op = some t ∧ Fifo size t := by
  obtain ⟨rfl, contents, holding, sized⟩ := fifo
  have below : s.queue.size ≤ 2 ^ 32 := by unfold intMax at small; omega
  cases op with
  | write data =>
    obtain ⟨next, ran, kept, same⟩ := write_spec small holding enabled data
    refine ⟨_, by rw [step, ran, Option.map_some], same.size, _, kept, ?_⟩
    show s.stored ++ _ = s.taken ++ (contents ++ _)
    rw [take_dropped, sized, List.append_assoc]
  | read readRequest =>
    obtain ⟨⟨stop, m, bytes⟩, ran⟩ := @readLoop_defined _ _ ([] : Text) readRequest holding small
    obtain ⟨rfl, kept, same, stopped⟩ := readLoop_holding holding below ran
    obtain rfl : stop = .ends := enabled.2 _ ran
    have order : s.stored = s.taken ++ ([] ++ contents.take readRequest) ++ contents.drop readRequest := by
      rw [List.nil_append, List.append_assoc, List.take_append_drop, sized]
    rw [step, ran, Option.bind_some, if_neg (by simp), readEnd]
    by_cases short : ([] ++ contents.take readRequest).length < readRequest
    · have ended : m.endOfStream = true := by
        rw [List.nil_append, List.length_take] at short
        by_contra running
        rw [if_neg] at stopped
        · cases stopped
        · rintro (enough | unreported)
          · omega
          · exact running (same.ended.trans unreported.1)
      rw [if_pos short, if_pos ended]
      exact ⟨_, rfl, same.size, _, kept.flags m.endOfStream true, order⟩
    · rw [if_neg short]
      exact ⟨_, rfl, same.size, _, kept, order⟩
  | endOfStream =>
    refine ⟨_, rfl, ?_⟩
    unfold byteQueueWriteEndOfStream
    split
    · exact ⟨rfl, contents, holding, sized⟩
    · exact ⟨rfl, contents, holding.flags true false, sized⟩
  | startOfStream =>
    rw [step, if_pos enabled.1, byteQueueWriteStartOfStream, if_pos enabled.2]
    exact ⟨_, rfl, rfl, contents, holding.flags false s.queue.endOfStreamReported, sized⟩

/-- A new queue, whose first end of a stream has been reported or not. -/
def fresh (size : Nat) (block : Nat → UInt8) (endOfStream endOfStreamReported : Bool) : ByteQueue :=
  ⟨block, 0, 0, false, size, endOfStream, endOfStreamReported⟩

variable {block : Nat → UInt8}

theorem create_fresh (positive : 0 < size) : byteQueueCreate size block = some (fresh size block true false) :=
  if_neg (by omega)

theorem fresh_holding (positive : 0 < size) (ended reported : Bool) : Holding (fresh size block ended reported) [] := by
  refine ⟨positive, Nat.zero_le _, (Nat.zero_mod size).symm, ?_, rfl⟩
  exact (decide_eq_false (by simp only [fresh, List.length_nil]; omega)).symm

/-- The first read reports an end, and then a stream can start. -/
theorem read_fresh (readRequest : Nat) (positive : 0 < readRequest) :
    readLoop (fresh size block true false) readRequest [] = some (.ends, fresh size block true false, []) := by
  rw [readLoop_eq, if_neg (by omega)]
  rfl

/-- A write up to an index beyond `INT_MAX` fails. -/
theorem write_large {data : Text} (large : intMax < size) (long : data.length = intMax + 1) :
    step ⟨fresh size block false true, [], []⟩ (.write data) = none := by
  have some : data ≠ [] := List.ne_nil_of_length_eq_add_one long
  have whole : min (writable (fresh size block false true)) data.length = intMax + 1 := by
    simp only [writable, fresh, gt_iff_lt, Nat.lt_irrefl, if_false, long]
    omega
  have chunk : writeChunk (fresh size block false true) data = none := by
    have beyond : ¬ ((fresh size block false true).tail + (intMax + 1)) % 2 ^ 32 < 2 ^ 31 := by
      simp only [fresh, intMax]
      omega
    simp only [writeChunk, whole, advance, beyond, false_and, if_false, Option.map_none, Nat.succ_ne_zero]
  have loop : writeLoop (fresh size block false true) data true = none := by
    rw [writeLoop_eq, if_neg some, chunk]
    rfl
  have failed : byteQueueWriteData (fresh size block false true) data = none := loop
  rw [step, failed, Option.map_none]

theorem large_unbounded (large : intMax < size) : ¬ BoundedFifo size block := by
  rintro ⟨bq, created, bounded⟩
  obtain rfl : fresh size block true false = bq := Option.some.inj ((create_fresh (by omega)).symm.trans created)
  obtain ⟨data, long⟩ : ∃ data : Text, data.length = intMax + 1 := ⟨List.replicate (intMax + 1) 0, List.length_replicate⟩
  have reading : step ⟨fresh size block true false, [], []⟩ (.read 1) = some ⟨fresh size block true true, [], []⟩ := by
    rw [step, read_fresh 1 Nat.zero_lt_one]
    rfl
  have starting : step ⟨fresh size block true true, [], []⟩ .startOfStream = some ⟨fresh size block false true, [], []⟩ := rfl
  have fails : Guarded step Enabled ⟨fresh size block true false, [], []⟩ [.read 1, .startOfStream, .write data] ∧
      run step ⟨fresh size block true false, [], []⟩ [.read 1, .startOfStream, .write data] = none := by
    refine guarded_cons ⟨Nat.zero_lt_one, fun out ran => ?_⟩ reading (guarded_cons ⟨rfl, rfl⟩ starting ⟨⟨rfl, fun _ _ => trivial⟩, ?_⟩)
    · rw [read_fresh 1 Nat.zero_lt_one] at ran
      cases ran
      rfl
    · rw [run, write_large large long, Option.bind_none]
  obtain ⟨s, ran, _⟩ := bounded _ fails.1
  rw [fails.2] at ran
  cases ran

end

/-- A byte queue is a bounded queue exactly when its size is an `int`. -/
theorem bounded_fifo_iff (size : Nat) (block : Nat → UInt8) (positive : 0 < size) :
    BoundedFifo size block ↔ size ≤ intMax := by
  constructor
  · intro bounded
    by_contra large
    exact large_unbounded (Nat.lt_of_not_le large) bounded
  · intro small
    have start : Fifo size ⟨fresh size block true false, [], []⟩ := ⟨rfl, [], fresh_holding positive true false, rfl⟩
    refine ⟨_, create_fresh positive, fun ops guarded => ?_⟩
    obtain ⟨s, ran, fifo⟩ := guarded_total (fun s op fifo enabled => step_fifo small fifo enabled) start guarded
    exact ⟨s, ran, fifo_bounded small fifo⟩

theorem bounded_fifo_iff_four : BoundedFifo 4 (fun _ => 0) ↔ 4 ≤ intMax := bounded_fifo_iff 4 (fun _ => 0) (by decide)

/-- A queue of 2^31 bytes. -/
theorem bounded_fifo_fails : ¬ BoundedFifo (2 ^ 31) (fun _ => 0) := large_unbounded (by decide)

end VoxiUtil.ByteQueueFifo
