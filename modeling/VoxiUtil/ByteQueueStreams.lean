import VoxiUtil.ByteQueueFifo

/-!
Streams over a byte queue, between a thread that writes and one that reads. A step is
what a thread does while it holds the mutex; a thread that waits for the condition may
wake at any time, as broadcasts and spurious wake-ups allow.
-/
namespace VoxiUtil.ByteQueueStreams
open VoxiUtil.CString VoxiUtil.Runs VoxiUtil.Ring VoxiUtil.ByteQueueC VoxiUtil.ByteQueueFifo
open VoxiUtil.Limits (intMax)

/-- Where the writer is: between two streams, waiting in `byteQueue_writeStartOfStream`,
    or inside a stream. -/
inductive Writer where
  | closed
  | starting
  | streaming
deriving DecidableEq

/-- Where the reader is: outside, or waiting in `ByteQueue_readData` with the bytes it
    has copied so far. -/
inductive Reader where
  | idle
  | waiting (readRequest : Nat) (data : Text)
deriving DecidableEq

def Reader.data : Reader → Text
  | .idle => []
  | .waiting _ data => data

/-- The queue and its two threads, with a record: what was stored of each ended stream
    and of the one that is open, what was read up to each short read, and since. -/
structure System where
  queue : ByteQueue
  writer : Writer
  reader : Reader
  streams : List Text
  current : Text
  segments : List Text
  since : Text

inductive Act where
  | startOfStream
  | startWakes
  | write (data : Text)
  | endOfStream
  | read (readRequest : Nat)
  | readWakes

/-- The loop of `byteQueue_writeStartOfStream` and what is behind it. -/
def startLoop (s : System) : System :=
  match byteQueueWriteStartOfStream s.queue with
  | some queue => { s with queue, writer := .streaming }
  | none => { s with writer := .starting }

/-- A read that returns. It is short when it has fewer bytes than requested. -/
def returned (s : System) (readRequest : Nat) (data : Text) : System :=
  if data.length < readRequest then
    { s with reader := .idle, segments := s.segments ++ [s.since ++ data], since := [] }
  else { s with reader := .idle, since := s.since ++ data }

/-- A read from its beginning, or from where it waited, to where it waits or returns. -/
def reading (s : System) (readRequest : Nat) (data : Text) : Option System :=
  (readLoop s.queue (readRequest - data.length) data).bind fun out =>
    match out with
    | (.waits, queue, data) => some { s with queue, reader := .waiting readRequest data }
    | (.ends, queue, data) =>
      (readEnd queue readRequest data).map fun queue => returned { s with queue } readRequest data

def step (s : System) : Act → Option System
  | .startOfStream => if s.queue.endOfStream then some (startLoop s) else none
  | .startWakes => some (startLoop s)
  | .write data => (byteQueueWriteData s.queue data).map fun out =>
    { s with queue := out.1, current := s.current ++ data.take (data.length - out.2.2.length) }
  | .endOfStream => some { s with
      queue := byteQueueWriteEndOfStream s.queue, writer := .closed, streams := s.streams ++ [s.current], current := [] }
  | .read readRequest => reading s readRequest []
  | .readWakes =>
    match s.reader with
    | .idle => none
    | .waiting readRequest data => reading s readRequest data

/-- The writer writes whole streams, and a read asks for a byte at least. -/
def Enabled (s : System) : Act → Prop
  | .startOfStream => s.writer = .closed
  | .startWakes => s.writer = .starting
  | .write _ => s.writer = .streaming
  | .endOfStream => s.writer = .streaming
  | .read readRequest => s.reader = .idle ∧ 0 < readRequest
  | .readWakes => s.reader ≠ .idle

/-- There has been one short read for the beginning and one for each ended stream, but
    for the last while its end is not reported, and they divide what was read into the
    streams. What the assertions say of `endOfStream` holds where they stand. -/
structure Divided (s : System) : Prop where
  counted : s.segments.length + (if Unreported s.queue then 1 else 0) = s.streams.length + 1
  separate : s.segments <+: [] :: s.streams
  closed : s.writer = .closed → s.queue.endOfStream = true
  streaming : s.writer = .streaming → s.queue.endOfStream = false
  short : ∀ readRequest next data, readLoop s.queue (readRequest - s.reader.data.length) s.reader.data = some (.ends, next, data) →
    data.length < readRequest → next.endOfStream = true

/-- A queue at the beginning. -/
def initial (bq : ByteQueue) : System := ⟨bq, .closed, .idle, [], [], [], []⟩

/-- Every run over a new queue of this size keeps the streams apart. -/
def StreamsSurvive (size : Nat) (block : Nat → UInt8) : Prop :=
  ∃ bq, byteQueueCreate size block = some bq ∧
    ∀ acts s, Guarded step Enabled (initial bq) acts → run step (initial bq) acts = some s → Divided s

/-- What was read since the last short read, what a waiting read has copied and what
    the queue holds is one stream: the last, until its end is reported, and then the
    open one. -/
structure Streaming (size : Nat) (s : System) (contents : Text) : Prop where
  holding : Holding s.queue contents
  size : s.queue.size = size
  streaming : s.writer = .streaming ↔ s.queue.endOfStream = false
  reported : s.queue.endOfStream = false → s.queue.endOfStreamReported = true
  ended : s.queue.endOfStream = true → s.current = []
  pending : Unreported s.queue → [] :: s.streams = s.segments ++ [s.since ++ s.reader.data ++ contents]
  settled : ¬ Unreported s.queue → [] :: s.streams = s.segments ∧ s.current = s.since ++ s.reader.data ++ contents
  waiting : ∀ readRequest data, s.reader = .waiting readRequest data → data.length < readRequest

section
variable {size : Nat} {s t : System} {contents : Text}

theorem streaming_divided (small : size ≤ 2 ^ 32) (streaming : Streaming size s contents) : Divided s := by
  have bounded := small
  rw [← streaming.size] at bounded
  refine ⟨?_, ?_, ?_, streaming.streaming.mp, ?_⟩
  · by_cases open' : Unreported s.queue
    · have lengths := congrArg List.length (streaming.pending open')
      rw [if_pos open']
      simpa using lengths.symm
    · have lengths := congrArg List.length (streaming.settled open').1
      rw [if_neg open']
      simpa using lengths.symm
  · by_cases open' : Unreported s.queue
    · rw [streaming.pending open']
      exact List.prefix_append _ _
    · rw [(streaming.settled open').1]
  · intro closed
    by_contra running
    have other := streaming.streaming.mpr (by simpa using running)
    rw [closed] at other
    cases other
  · intro readRequest next data ran short
    obtain ⟨rfl, _, same, stopped⟩ := readLoop_holding streaming.holding bounded ran
    rw [List.length_append, List.length_take] at short
    by_contra running
    rw [if_neg] at stopped
    · cases stopped
    · rintro (enough | unreported)
      · omega
      · exact running (same.ended.trans unreported.1)

theorem startLoop_streaming (streaming : Streaming size s contents) (closed : s.queue.endOfStream = true) :
    Streaming size (startLoop s) contents := by
  unfold startLoop byteQueueWriteStartOfStream
  by_cases reported : s.queue.endOfStreamReported = true
  · have settled := streaming.settled fun unreported => absurd (unreported.2.symm.trans reported) (by simp)
    rw [if_pos reported]
    refine ⟨streaming.holding.flags false s.queue.endOfStreamReported, streaming.size, iff_of_true rfl rfl, fun _ => reported, ?_, ?_,
      fun _ => settled, streaming.waiting⟩
    · intro ended
      cases ended
    · intro open'
      cases open'.1
  · rw [if_neg reported]
    refine ⟨streaming.holding, streaming.size, ?_, streaming.reported, streaming.ended, streaming.pending, streaming.settled,
      streaming.waiting⟩
    simp [closed]

/-- Bytes that move from the queue to the reader, while no end of a stream is reported. -/
theorem Streaming.moved (streaming : Streaming size s contents) {queue : ByteQueue} {reader : Reader} {since rest : Text}
    (holding : Holding queue rest) (same : SameStream queue s.queue)
    (joined : since ++ reader.data ++ rest = s.since ++ s.reader.data ++ contents)
    (short : ∀ readRequest data, reader = .waiting readRequest data → data.length < readRequest) :
    Streaming size { s with queue, reader, since } rest := by
  refine ⟨holding, same.size.trans streaming.size, ?_, ?_, ?_, ?_, ?_, short⟩
  · show s.writer = .streaming ↔ queue.endOfStream = false
    rw [same.ended]
    exact streaming.streaming
  · show queue.endOfStream = false → queue.endOfStreamReported = true
    rw [same.ended, same.reported]
    exact streaming.reported
  · show queue.endOfStream = true → s.current = []
    rw [same.ended]
    exact streaming.ended
  · show Unreported queue → [] :: s.streams = s.segments ++ [since ++ reader.data ++ rest]
    rw [same.unreported, joined]
    exact streaming.pending
  · show ¬ Unreported queue → [] :: s.streams = s.segments ∧ s.current = since ++ reader.data ++ rest
    rw [same.unreported, joined]
    exact streaming.settled

/-- Inside a stream, all that was stored of it is with the reader or in the queue. -/
theorem Streaming.midstream (streaming : Streaming size s contents) (writing : s.writer = .streaming) :
    s.queue.endOfStream = false ∧ ¬ Unreported s.queue ∧ [] :: s.streams = s.segments ∧
      s.current = s.since ++ s.reader.data ++ contents := by
  have running := streaming.streaming.mp writing
  have other : ¬ Unreported s.queue := by
    intro unreported
    rw [Unreported, running] at unreported
    cases unreported.1
  exact ⟨running, other, streaming.settled other⟩

/-- A read takes the first bytes of what is pending, and is short only at the end of it. -/
theorem reading_streaming (small : size ≤ 2 ^ 32) (streaming : Streaming size s contents) {readRequest : Nat}
    (part : s.reader.data.length < readRequest) (ran : reading s readRequest s.reader.data = some t) :
    ∃ contents, Streaming size t contents := by
  have bounded := small
  rw [← streaming.size] at bounded
  obtain ⟨⟨stop, queue, data⟩, looped, ended⟩ := Option.bind_eq_some_iff.mp ran
  obtain ⟨rfl, kept, same, stopped⟩ := readLoop_holding streaming.holding bounded looped
  have joined : s.since ++ (s.reader.data ++ contents.take (readRequest - s.reader.data.length)) ++
      contents.drop (readRequest - s.reader.data.length) = s.since ++ s.reader.data ++ contents := by
    simp only [List.append_assoc, List.take_append_drop]
  have flags : queue.endOfStream = s.queue.endOfStream := same.ended
  cases stop with
  | waits =>
    cases ended
    refine ⟨_, streaming.moved kept same joined ?_⟩
    intro request data waits
    cases waits
    rw [List.length_append, List.length_take]
    by_contra enough
    rw [if_pos (.inl (by omega))] at stopped
    cases stopped
  | ends =>
    obtain ⟨after, reported, rfl⟩ := Option.map_eq_some_iff.mp ended
    unfold readEnd at reported
    by_cases short : (s.reader.data ++ contents.take (readRequest - s.reader.data.length)).length < readRequest
    · -- all of the stream has been read and its end is reported now
      rw [if_pos short] at reported
      have lengths := short
      rw [List.length_append, List.length_take] at lengths
      have open' : Unreported s.queue := by
        by_contra other
        rw [if_neg] at stopped
        · cases stopped
        · rintro (enough | unreported)
          · omega
          · exact other unreported
      rw [if_pos (flags.trans open'.1)] at reported
      cases reported
      have all := streaming.pending open'
      have nothing : contents.drop (readRequest - s.reader.data.length) = [] := List.drop_eq_nil_of_le (by omega)
      rw [← joined, nothing, List.append_nil] at all
      unfold returned
      rw [if_pos short]
      refine ⟨_, kept.flags queue.endOfStream true, same.size.trans streaming.size, ?_, ?_, ?_, ?_, ?_, ?_⟩
      · show s.writer = .streaming ↔ queue.endOfStream = false
        rw [flags]
        exact streaming.streaming
      · intro _
        rfl
      · show queue.endOfStream = true → s.current = []
        rw [flags]
        exact streaming.ended
      · intro unreported
        cases unreported.2
      · intro _
        refine ⟨all, ?_⟩
        rw [nothing]
        exact streaming.ended open'.1
      · intro request data waits
        cases waits
    · rw [if_neg short] at reported
      cases reported
      unfold returned
      rw [if_neg short]
      refine ⟨_, streaming.moved kept same (by simp [Reader.data]) ?_⟩
      intro request data waits
      cases waits

theorem step_streaming (small : size ≤ 2 ^ 32) {act : Act} (streaming : Streaming size s contents) (enabled : Enabled s act)
    (stepped : step s act = some t) : ∃ contents, Streaming size t contents := by
  cases act with
  | startOfStream =>
    by_cases ended : s.queue.endOfStream = true
    · rw [step, if_pos ended] at stepped
      cases stepped
      exact ⟨contents, startLoop_streaming streaming ended⟩
    · rw [step, if_neg ended] at stepped
      cases stepped
  | startWakes =>
    cases stepped
    refine ⟨contents, startLoop_streaming streaming ?_⟩
    by_contra running
    have other := streaming.streaming.mpr (by simpa using running)
    rw [show s.writer = .starting from enabled] at other
    cases other
  | write data =>
    obtain ⟨running, other, division, current⟩ := streaming.midstream enabled
    have bounded := small
    rw [← streaming.size] at bounded
    obtain ⟨⟨queue, noDrop, left⟩, wrote, rfl⟩ := Option.map_eq_some_iff.mp stepped
    rw [byteQueueWriteData, running] at wrote
    obtain ⟨kept, _, rfl, same⟩ := writeLoop_holding streaming.holding bounded wrote
    refine ⟨_, kept, same.size.trans streaming.size, ?_, ?_, ?_, ?_, ?_, streaming.waiting⟩
    · show s.writer = .streaming ↔ queue.endOfStream = false
      rw [same.ended]
      exact streaming.streaming
    · show queue.endOfStream = false → queue.endOfStreamReported = true
      rw [same.ended, same.reported]
      exact streaming.reported
    · show queue.endOfStream = true → _
      rw [same.ended, running]
      intro ended
      cases ended
    · show Unreported queue → _
      rw [same.unreported]
      exact fun unreported => absurd unreported other
    · intro _
      refine ⟨division, ?_⟩
      show s.current ++ _ = _
      rw [take_dropped, current, List.append_assoc]
  | endOfStream =>
    obtain ⟨running, other, division, current⟩ := streaming.midstream enabled
    have closing : byteQueueWriteEndOfStream s.queue = { s.queue with endOfStreamReported := false, endOfStream := true } :=
      if_neg (by simp [running])
    cases stepped
    rw [closing]
    refine ⟨contents, streaming.holding.flags true false, streaming.size, ?_, ?_, ?_, ?_, ?_, streaming.waiting⟩
    · simp
    · intro ended
      cases ended
    · intro _
      rfl
    · intro _
      show [] :: (s.streams ++ [s.current]) = s.segments ++ _
      rw [← division, current]
      rfl
    · intro unreported
      exact absurd ⟨rfl, rfl⟩ unreported
  | read readRequest =>
    obtain ⟨idle, positive⟩ := enabled
    have nothing : s.reader.data = [] := by rw [idle]; rfl
    have ran : reading s readRequest s.reader.data = some t := by rw [nothing]; exact stepped
    refine reading_streaming small streaming ?_ ran
    rw [nothing]
    exact positive
  | readWakes =>
    cases waits : s.reader with
    | idle => exact absurd waits enabled
    | waiting readRequest data =>
      simp only [step, waits] at stepped
      have nothing : s.reader.data = data := by rw [waits]; rfl
      refine reading_streaming small streaming ?_ (nothing ▸ stepped)
      rw [nothing]
      exact streaming.waiting readRequest data waits

/-! ### Up to `INT_MAX` bytes -/

theorem reading_defined (small : size ≤ intMax) (streaming : Streaming size s contents) (readRequest : Nat) :
    ∃ t, reading s readRequest s.reader.data = some t := by
  have bounded := small
  rw [← streaming.size] at bounded
  obtain ⟨⟨stop, queue, data⟩, looped⟩ := @readLoop_defined _ _ s.reader.data (readRequest - s.reader.data.length)
    streaming.holding bounded
  rw [reading, looped, Option.bind_some]
  cases stop with
  | waits => exact ⟨_, rfl⟩
  | ends =>
    have divided := streaming_divided (by unfold intMax at small; omega) streaming
    simp only [readEnd]
    by_cases short : data.length < readRequest
    · rw [if_pos short, if_pos (divided.short readRequest queue data looped short)]
      exact ⟨_, rfl⟩
    · rw [if_neg short]
      exact ⟨_, rfl⟩

theorem step_defined (small : size ≤ intMax) (streaming : Streaming size s contents) {act : Act} (enabled : Enabled s act) :
    ∃ t, step s act = some t := by
  have divided := streaming_divided (by unfold intMax at small; omega) streaming
  have bounded := small
  rw [← streaming.size] at bounded
  cases act with
  | startOfStream =>
    rw [step, if_pos (divided.closed enabled)]
    exact ⟨_, rfl⟩
  | startWakes | endOfStream => exact ⟨_, rfl⟩
  | write data =>
    obtain ⟨out, wrote⟩ := @writeLoop_defined _ _ data streaming.holding bounded (byteQueueIsEmpty s.queue)
    rw [step, byteQueueWriteData, divided.streaming enabled]
    exact ⟨_, congrArg (Option.map _) wrote⟩
  | read readRequest =>
    obtain ⟨t, ran⟩ := reading_defined small streaming readRequest
    rw [enabled.1] at ran
    exact ⟨t, ran⟩
  | readWakes =>
    cases waits : s.reader with
    | idle => exact absurd waits enabled
    | waiting readRequest data =>
      obtain ⟨t, ran⟩ := reading_defined small streaming readRequest
      rw [waits] at ran
      refine ⟨t, ?_⟩
      simp only [step, waits]
      exact ran

/-! ### More than 2^32 bytes -/

/-- A queue whose tail is at the beginning. -/
def rewound (buffer : Nat → UInt8) (size head : Nat) (isFull endOfStream endOfStreamReported : Bool) : ByteQueue :=
  ⟨buffer, head, 0, isFull, size, endOfStream, endOfStreamReported⟩

variable {buffer : Nat → UInt8} {head next : Nat} {isFull : Bool}

/-- A read of one piece, up to the end of the buffer at most. -/
theorem rewound_read {readRequest : Nat} (queue : s.queue = rewound buffer size head isFull true false)
    (some : head ≠ 0 ∨ isFull = true) (positive : 0 < readRequest) (fits : readRequest ≤ size - head)
    (advanced : advance size head readRequest = .some next) :
    step s (.read readRequest) = .some { s with
      queue := rewound buffer size next (if head = 0 then false else isFull) true false
      reader := .idle, since := s.since ++ slice buffer head readRequest } := by
  have length : min (readable (rewound buffer size head isFull true false)) readRequest = readRequest := by
    simp only [readable, rewound, Nat.zero_le, if_true]
    omega
  have occupied : ¬ (head = 0 ∧ isFull = false) := by
    rintro ⟨first, unfilled⟩
    rcases some with other | full
    · exact other first
    · rw [unfilled] at full
      cases full
  have chunk : readChunk (rewound buffer size head isFull true false) readRequest =
      .some (rewound buffer size next (if head = 0 then false else isFull) true false, slice buffer head readRequest) := by
    unfold readChunk
    simp only [length]
    rw [if_neg (by omega)]
    refine (if_neg occupied).trans ?_
    show (advance size head readRequest).map _ = _
    rw [advanced]
    rfl
  have full : ¬ byteQueueIsEmpty (rewound buffer size head isFull true false) = true := by
    simp only [byteQueueIsEmpty, rewound, Bool.and_eq_true, beq_iff_eq, Bool.not_eq_true']
    exact occupied
  have loop : readLoop (rewound buffer size head isFull true false) readRequest [] =
      .some (.ends, rewound buffer size next (if head = 0 then false else isFull) true false, slice buffer head readRequest) := by
    rw [readLoop_eq, if_neg (by omega), if_neg full, chunk, Option.bind_some, slice_length, Nat.sub_self, readLoop_eq, if_pos rfl]
    rfl
  have whole : ¬ (slice buffer head readRequest).length < readRequest := by
    rw [slice_length]
    omega
  simp only [step, reading, List.length_nil, Nat.sub_zero, queue, loop, Option.bind_some, readEnd, if_neg whole, Option.map_some,
    returned]

theorem advance_large {index bytes : Nat} (large : 2 ^ 32 < size) (cut : (index + bytes) % 2 ^ 32 = next) (low : next < 2 ^ 31) :
    advance size index bytes = some next := by
  simp only [advance, cut]
  rw [if_pos (by omega), if_neg (by omega)]

/-- The index of a write of 2^32 bytes is cut to 0, so that the queue counts as full. -/
theorem rewound_write {block : Nat → UInt8} {data : Text} (large : 2 ^ 32 < size) (long : data.length = 2 ^ 32) :
    ∃ buffer, byteQueueWriteData (fresh size block false true) data = some (rewound buffer size 0 true false true, true, []) := by
  have some : data ≠ [] := List.ne_nil_of_length_pos (by omega)
  have length : min (writable (fresh size block false true)) data.length = 2 ^ 32 := by
    simp only [writable, fresh, gt_iff_lt, Nat.lt_irrefl, if_false, long]
    omega
  have advanced : advance size 0 (2 ^ 32) = .some 0 := advance_large large (Nat.zero_add _ ▸ Nat.mod_self _) (by omega)
  have chunk : writeChunk (fresh size block false true) data =
      .some (rewound (store block 0 (data.take (2 ^ 32))) size 0 true false true, []) := by
    unfold writeChunk
    simp only [length]
    rw [if_neg (by omega)]
    show (advance size 0 (2 ^ 32)).map _ = _
    rw [advanced, List.drop_eq_nil_of_le (by omega)]
    rfl
  have loop : writeLoop (fresh size block false true) data true =
      .some (rewound (store block 0 (data.take (2 ^ 32))) size 0 true false true, true, []) := by
    have full : ¬ byteQueueIsFull (fresh size block false true) = true := by simp [byteQueueIsFull, fresh]
    rw [writeLoop_eq, if_neg some, if_neg full, chunk, Option.bind_some]
    exact (if_neg (by simp [byteQueueIsEmpty, rewound])).trans ((writeLoop_eq _ _ _).trans (if_pos rfl))
  exact ⟨_, loop⟩

/-- The reader gets the buffer twice before the queue counts as empty. -/
theorem large_mixes {block : Nat → UInt8} (large : 2 ^ 32 < size) : ¬ StreamsSurvive size block := by
  rintro ⟨bq, created, survive⟩
  obtain rfl : fresh size block true false = bq := Option.some.inj ((create_fresh (by omega)).symm.trans created)
  obtain ⟨data, long⟩ : ∃ data : Text, data.length = 2 ^ 32 := ⟨List.replicate (2 ^ 32) 0, List.length_replicate⟩
  obtain ⟨buffer, wrote⟩ := @rewound_write size block data large long
  let drained (head : Nat) (isFull : Bool) (since : Text) : System :=
    ⟨rewound buffer size head isFull true false, .closed, .idle, [data], [], [[]], since⟩
  have first : step (initial (fresh size block true false)) (.read 1) =
      some ⟨fresh size block true true, .closed, .idle, [], [], [[]], []⟩ := by
    simp only [step, reading, initial, List.length_nil, Nat.sub_zero, read_fresh 1 Nat.zero_lt_one]
    rfl
  have second : step ⟨fresh size block true true, .closed, .idle, [], [], [[]], []⟩ .startOfStream =
      some ⟨fresh size block false true, .streaming, .idle, [], [], [[]], []⟩ := rfl
  have third : step ⟨fresh size block false true, .streaming, .idle, [], [], [[]], []⟩ (.write data) =
      some ⟨rewound buffer size 0 true false true, .streaming, .idle, [], data, [[]], []⟩ := by
    simp only [step, wrote, Option.map_some, List.length_nil, Nat.sub_zero, List.take_length, List.nil_append]
  have fourth : step ⟨rewound buffer size 0 true false true, .streaming, .idle, [], data, [[]], []⟩ .endOfStream =
      some (drained 0 true []) := rfl
  have whole : 1 ≤ size - 0 := by omega
  have fifth : step (drained 0 true []) (.read 1) = some (drained 1 false (slice buffer 0 1)) :=
    rewound_read rfl (.inr rfl) Nat.zero_lt_one whole (advance_large large rfl (by omega))
  have sixth : step (drained 1 false (slice buffer 0 1)) (.read (2 ^ 32)) =
      some (drained 1 false (slice buffer 0 1 ++ slice buffer 1 (2 ^ 32))) :=
    rewound_read rfl (.inl Nat.one_ne_zero) (by omega) (by omega) (advance_large large rfl (by omega))
  have seventh : step (drained 1 false (slice buffer 0 1 ++ slice buffer 1 (2 ^ 32))) (.read (2 ^ 32 - 1)) =
      some (drained 0 false (slice buffer 0 1 ++ slice buffer 1 (2 ^ 32) ++ slice buffer 1 (2 ^ 32 - 1))) :=
    rewound_read rfl (.inl Nat.one_ne_zero) (by omega) (by omega) (advance_large large rfl (by omega))
  obtain ⟨since, read⟩ : ∃ since, since = slice buffer 0 1 ++ slice buffer 1 (2 ^ 32) ++ slice buffer 1 (2 ^ 32 - 1) := ⟨_, rfl⟩
  rw [← read] at seventh
  have eighth : step (drained 0 false since) (.read 1) =
      some ⟨rewound buffer size 0 false true true, .closed, .idle, [data], [], [[], since], []⟩ := by
    have loop : readLoop (rewound buffer size 0 false true false) 1 [] = some (.ends, rewound buffer size 0 false true false, []) := by
      rw [readLoop_eq, if_neg Nat.one_ne_zero]
      rfl
    simp only [step, reading, drained, List.length_nil, Nat.sub_zero, loop, Option.bind_some]
    simp [readEnd, rewound, returned]
  have runs : Guarded step Enabled (initial (fresh size block true false))
      [.read 1, .startOfStream, .write data, .endOfStream, .read 1, .read (2 ^ 32), .read (2 ^ 32 - 1), .read 1] ∧
      run step (initial (fresh size block true false))
        [.read 1, .startOfStream, .write data, .endOfStream, .read 1, .read (2 ^ 32), .read (2 ^ 32 - 1), .read 1] =
        some ⟨rewound buffer size 0 false true true, .closed, .idle, [data], [], [[], since], []⟩ := by
    refine guarded_cons ⟨rfl, Nat.zero_lt_one⟩ first ?_
    refine guarded_cons rfl second ?_
    refine guarded_cons rfl third ?_
    refine guarded_cons rfl fourth ?_
    refine guarded_cons ⟨rfl, Nat.zero_lt_one⟩ fifth ?_
    refine guarded_cons ⟨rfl, by omega⟩ sixth ?_
    refine guarded_cons ⟨rfl, by omega⟩ seventh ?_
    exact guarded_cons ⟨rfl, Nat.zero_lt_one⟩ eighth ⟨trivial, rfl⟩
  obtain ⟨rest, same⟩ := (survive _ _ runs.1 runs.2).separate
  have mixed : since = data := (List.cons_eq_cons.mp (List.cons_eq_cons.mp same).2).1
  have lengths := congrArg List.length mixed
  rw [read, List.length_append, List.length_append, slice_length, slice_length, slice_length, long] at lengths
  omega

end

/-- The streams are kept apart exactly in a queue of at most 2^32 bytes; up to `INT_MAX`
    bytes nothing fails on the way. -/
theorem streams_survive_iff (size : Nat) (block : Nat → UInt8) (positive : 0 < size) :
    (StreamsSurvive size block ↔ size ≤ 2 ^ 32) ∧
      (size ≤ intMax → ∀ acts, Guarded step Enabled (initial (fresh size block true false)) acts →
        ∃ s, run step (initial (fresh size block true false)) acts = some s) := by
  have start : ∃ contents, Streaming size (initial (fresh size block true false)) contents := by
    refine ⟨[], fresh_holding positive true false, rfl, ?_, ?_, fun _ => rfl, fun _ => rfl, ?_, ?_⟩
    · simp [initial, fresh]
    · intro running
      cases running
    · intro reported
      exact absurd ⟨rfl, rfl⟩ reported
    · intro readRequest data waits
      cases waits
  refine ⟨⟨fun survive => ?_, fun small => ?_⟩, fun small acts guarded => ?_⟩
  · by_contra large
    exact large_mixes (Nat.lt_of_not_le large) survive
  · refine ⟨_, create_fresh positive, fun acts s guarded ran => ?_⟩
    have preserved : ∀ s act t, (∃ contents, Streaming size s contents) → Enabled s act → step s act = some t →
        ∃ contents, Streaming size t contents := by
      rintro s act t ⟨contents, streaming⟩ enabled stepped
      exact step_streaming small streaming enabled stepped
    obtain ⟨contents, streaming⟩ := guarded_run _ preserved start guarded ran
    exact streaming_divided small streaming
  · have each : ∀ s act, (∃ contents, Streaming size s contents) → Enabled s act →
        ∃ t, step s act = some t ∧ ∃ contents, Streaming size t contents := by
      rintro s act ⟨contents, streaming⟩ enabled
      obtain ⟨t, stepped⟩ := step_defined small streaming enabled
      exact ⟨t, stepped, step_streaming (by unfold intMax at small; omega) streaming enabled stepped⟩
    obtain ⟨s, ran, _⟩ := guarded_total each start guarded
    exact ⟨s, ran⟩

theorem streams_survive_iff_four :
    (StreamsSurvive 4 (fun _ => 0) ↔ 4 ≤ 2 ^ 32) ∧
      (4 ≤ intMax → ∀ acts, Guarded step Enabled (initial (fresh 4 (fun _ => 0) true false)) acts →
        ∃ s, run step (initial (fresh 4 (fun _ => 0) true false)) acts = some s) :=
  streams_survive_iff 4 (fun _ => 0) (by decide)

/-- A queue of 2^32 + 1 bytes. -/
theorem streams_mix : ¬ StreamsSurvive (2 ^ 32 + 1) (fun _ => 0) := large_mixes (Nat.lt_succ_self _)

end VoxiUtil.ByteQueueStreams
