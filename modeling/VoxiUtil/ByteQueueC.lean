import VoxiUtil.CString
import VoxiUtil.Ring

/-!
The byte queues of `byteQueueC.c`: a ring of bytes between one thread that writes and
one that reads. Each function is given as what it does while it holds the mutex; `none`
is a failed assertion.
-/
namespace VoxiUtil.ByteQueueC
open VoxiUtil.CString VoxiUtil.Ring

/-- `struct sByteQueue`, without the mutex and the condition. -/
structure ByteQueue where
  buffer : Nat → UInt8
  head : Nat
  tail : Nat
  isFull : Bool
  size : Nat
  endOfStream : Bool
  endOfStreamReported : Bool

/-- `byteQueue_create`, with what is in the new block. -/
def byteQueueCreate (size : Nat) (block : Nat → UInt8) : Option ByteQueue :=
  if size = 0 then none else some ⟨block, 0, 0, false, size, true, false⟩

def byteQueueIsFull (bq : ByteQueue) : Bool := bq.isFull && bq.head == bq.tail

def byteQueueIsEmpty (bq : ByteQueue) : Bool := bq.head == bq.tail && !bq.isFull

/-- An index after so many bytes, back at 0 at the end of the buffer. The indexes are
    of type `int`, so that the sum is cut to 32 bits; a negative one fails the assertion
    that follows, as it is compared with a `size_t`. -/
def advance (size index bytes : Nat) : Option Nat :=
  let index := (index + bytes) % 2 ^ 32
  if index < 2 ^ 31 ∧ index ≤ size then some (if index = size then 0 else index) else none

/-- From the tail to the head or to the end of the buffer, whichever comes first. -/
def writable (bq : ByteQueue) : Nat := if bq.head > bq.tail then bq.head - bq.tail else bq.size - bq.tail

/-- One turn of the loop of `byteQueue_writeData`: the queue, and the data that is left. -/
def writeChunk (bq : ByteQueue) (data : Text) : Option (ByteQueue × Text) :=
  let bytesToCopy := min (writable bq) data.length
  if bytesToCopy = 0 then none
  else (advance bq.size bq.tail bytesToCopy).map fun tail =>
    ({ bq with buffer := store bq.buffer bq.tail (data.take bytesToCopy)
               tail
               isFull := if bq.head = tail then true else bq.isFull }, data.drop bytesToCopy)

theorem writeChunk_shorter {bq next : ByteQueue} {data rest : Text} (copied : writeChunk bq data = some (next, rest))
    (more : data ≠ []) : rest.length < data.length := by
  have longer := List.length_pos_of_ne_nil more
  simp only [writeChunk] at copied
  split at copied
  · cases copied
  · obtain ⟨tail, _, shape⟩ := Option.map_eq_some_iff.mp copied
    cases shape
    rw [List.length_drop]
    omega

/-- The loop: the queue behind it, `noDrop`, and the data that is left. -/
def writeLoop (bq : ByteQueue) (data : Text) (wasEmpty : Bool) : Option (ByteQueue × Bool × Text) :=
  if _more : data = [] then some (bq, true, [])
  else if byteQueueIsFull bq then some (bq, false, data)
  else
    match _copied : writeChunk bq data with
    | none => none
    | some (next, rest) => if wasEmpty && byteQueueIsEmpty next then none else writeLoop next rest false
termination_by data.length
decreasing_by exact writeChunk_shorter _copied _more

def byteQueueWriteData (bq : ByteQueue) (data : Text) : Option (ByteQueue × Bool × Text) :=
  if bq.endOfStream then none else writeLoop bq data (byteQueueIsEmpty bq)

def byteQueueWriteEndOfStream (bq : ByteQueue) : ByteQueue :=
  if bq.endOfStream then bq else { bq with endOfStreamReported := false, endOfStream := true }

/-- The end of `byteQueue_writeStartOfStream`; none while it waits. -/
def byteQueueWriteStartOfStream (bq : ByteQueue) : Option ByteQueue :=
  if bq.endOfStreamReported then some { bq with endOfStream := false } else none

def readable (bq : ByteQueue) : Nat := if bq.tail ≤ bq.head then bq.size - bq.head else bq.tail - bq.head

/-- One turn of the loop of `ByteQueue_readData` that copies: the queue, and the bytes. -/
def readChunk (bq : ByteQueue) (length : Nat) : Option (ByteQueue × Text) :=
  let bytesToCopy := min (readable bq) length
  if bytesToCopy = 0 then none
  else if bq.head = bq.tail ∧ bq.isFull = false then none
  else (advance bq.size bq.head bytesToCopy).map fun head =>
    ({ bq with head
               isFull := if bq.head = bq.tail then false else bq.isFull }, slice bq.buffer bq.head bytesToCopy)

theorem readChunk_shorter {bq next : ByteQueue} {length : Nat} {bytes : Text}
    (copied : readChunk bq length = some (next, bytes)) : 0 < bytes.length ∧ bytes.length ≤ length := by
  simp only [readChunk] at copied
  split at copied
  · cases copied
  · split at copied
    · cases copied
    · obtain ⟨head, _, shape⟩ := Option.map_eq_some_iff.mp copied
      cases shape
      rw [slice_length]
      omega

/-- Where the loop of `ByteQueue_readData` stops: to wait for the condition, or behind
    its end. -/
inductive Stop where
  | waits
  | ends
deriving DecidableEq

/-- The loop, with the bytes that it has copied before: where it stops, the queue, and
    all the bytes copied then. -/
def readLoop (bq : ByteQueue) (length : Nat) (data : Text) : Option (Stop × ByteQueue × Text) :=
  if _more : length = 0 then some (.ends, bq, data)
  else if byteQueueIsEmpty bq then
    if bq.endOfStream && !bq.endOfStreamReported then some (.ends, bq, data) else some (.waits, bq, data)
  else
    match _copied : readChunk bq length with
    | none => none
    | some (next, bytes) => readLoop next (length - bytes.length) (data ++ bytes)
termination_by length
decreasing_by
  have := readChunk_shorter _copied
  omega

/-- The end of `ByteQueue_readData`, which reports the end of the stream by a result
    below the request. -/
def readEnd (bq : ByteQueue) (readRequest : Nat) (data : Text) : Option ByteQueue :=
  if data.length < readRequest then
    if bq.endOfStream then some { bq with endOfStreamReported := true } else none
  else some bq

end VoxiUtil.ByteQueueC
