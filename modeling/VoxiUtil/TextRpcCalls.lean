import VoxiUtil.HashSet
import VoxiUtil.TextRpcFraming

/-!
Concurrent calls of `textRPC_call` on one running connection, with the thread that
handles the lines of the peer. A step is one operation on the table, one section
under a mutex or one statement between them; the peer answers each request that was
sent to it once, in any order, and may send replies with ids that are not outstanding.
-/
namespace VoxiUtil.TextRpcCalls
open VoxiUtil.CString VoxiUtil.Hash VoxiUtil.HashSet VoxiUtil.Representatives VoxiUtil.Runs VoxiUtil.TextRpc
open VoxiUtil.TextRpcLines VoxiUtil.TextRpcFraming
open VoxiUtil.Err (errBuffSize)
variable {size : Nat} [NeZero size]

/-- What `textRPC_call` gives to its caller: the error of the call, returned early, or
    `*result` with the returned error of `sock_send`. -/
inductive Outcome where
  | exception (description : Text)
  | result (text : Option Text) (error : Option Text)
deriving DecidableEq

/-- How far the thread of a call is in `textRPC_call`: the statement it has done last. -/
inductive Pc where
  | outside
  | taken
  | registered
  | locked
  | sent
  | waiting
  | woken
  | resumed
  | returned (outcome : Outcome)
deriving DecidableEq

/-- The thread has the mutex of its call. A return with the error of the call leaves
    it locked. -/
def Pc.owns : Pc → Bool
  | .locked | .sent | .resumed | .returned (.exception _) => true
  | _ => false

/-- The thread that handles lines is between two of them, has found the call of a reply
    but not stored the answer, or has stored it but not called `pthread_cond_broadcast`. -/
inductive Receiver where
  | idle
  | found (call : OutstandingCall) (isException : Bool) (message : Option Text)
  | stored (call : OutstandingCall)

/-- Calls are numbered in the order in which they take their ids; `pc`, `ids` (the local
    `callId`) and `error` (the local `error`) are by number, and so is the block of a
    call. `requests` has the ids of the requests that the peer has not answered, and
    `received` the replies to requests that were handled. -/
structure State (size : Nat) [NeZero size] where
  connection : Connection size
  nextCallId : Int32
  issued : Nat
  ids : Nat → Int32
  pc : Nat → Pc
  error : Nat → Option Text
  requests : List Int32
  received : List (Int32 × Dispatched)
  receiver : Receiver

/-- The first id is 0 at a server and 1 at a client. -/
def initial (size : Nat) [NeZero size] (first protocolVersion : Int32) (tcpConnection : Bool) : State size :=
  ⟨{ connectionCreate protocolVersion tcpConnection with protocolState := .running }, first, 0, fun _ => 0,
    fun _ => .outside, fun _ => none, [], [], .idle⟩

def State.call (s : State size) (k : Nat) : OutstandingCall := ⟨s.ids k, k⟩

/-- The line of a reply, as it is read. -/
def replyLine (id : Int32) : Dispatched → Text
  | .result none => [byte 'R', byte ' '] ++ printInt id
  | .result (some text) => head (byte 'R') id ++ text
  | .error text => head (byte 'E') id ++ text

inductive Label where
  | take
  | register (k : Nat)
  | lock (k : Nat)
  | send (k : Nat) (error : Option Text)
  | wait (k : Nat)
  | receive (id : Int32) (reply : Dispatched)
  | store
  | broadcast
  | resume (k : Nat)
  | finish (k : Nat)

/-- The first call of a server, sent with the given outcome of `sock_send`, up to its wait. -/
def request (error : Option Text) : List Label := [.take, .register 0, .lock 0, .send 0 error, .wait 0]

/-- The call of number `k` goes on from one statement to the next. -/
def State.moved (s : State size) (k : Nat) (pc : Pc) : State size := { s with pc := Function.update s.pc k pc }

def State.withTable (s : State size) (table : Hasht (callFuncs size)) : State size :=
  { s with connection := { s.connection with outstandingCalls := table } }

/-- `handleReturn` up to the lock of the call's mutex, for a reply that answers a request
    or has an id that is not outstanding. -/
def receiveStep (s : State size) (id : Int32) (reply : Dispatched) : Option (State size) :=
  let line := replyLine id reply
  match s.receiver, findCall s.connection.outstandingCalls (fields line) with
  | .idle, .ok (outstandingCall, message) =>
    if id ∈ s.requests then
      some { s with
        requests := s.requests.erase id
        received := (id, reply) :: s.received
        receiver := match outstandingCall with
          | none => .idle
          | some call => .found call (strcaseEq (keyword line) (lit "E")) message }
    else if outstandingCall = none then some s else none
  | _, _ => none

/-- The end of `textRPC_call`, behind the wait. -/
def finishStep (s : State size) (k : Nat) : Option (State size) :=
  match s.connection.answers k with
  | none => none
  | some (.error description) => some (s.moved k (.returned (.exception description)))
  | some (.result text) =>
    (hashDelete s.connection.outstandingCalls (s.call k)).map fun out =>
      (s.withTable out.1).moved k (.returned (.result text (s.error k)))

/-- A wait gives the mutex free and ends with a broadcast only, when it takes the mutex
    again. The mutex of a call is new when its thread locks it. -/
def step (s : State size) : Label → Option (State size)
  | .take => some { s with
      nextCallId := s.nextCallId + 1
      issued := s.issued + 1
      ids := Function.update s.ids s.issued s.nextCallId
      pc := Function.update s.pc s.issued .taken }
  | .register k =>
    if s.pc k = .taken then
      some ((s.withTable (hashAdd s.connection.outstandingCalls (s.call k) (some k)).1).moved k .registered)
    else none
  | .lock k => if s.pc k = .registered then some (s.moved k .locked) else none
  | .send k error =>
    if s.pc k = .locked then
      some { s.moved k .sent with
        error := Function.update s.error k error
        requests := if error = none then s.ids k :: s.requests else s.requests }
    else none
  | .wait k => if s.pc k = .sent then some (s.moved k .waiting) else none
  | .receive id reply => receiveStep s id reply
  | .store =>
    match s.receiver with
    | .found call isException message =>
      match (s.pc call.address).owns, makeAnswer isException message with
      | false, .ok answer =>
        some { s with connection := storeAnswer s.connection call answer, receiver := .stored call }
      | _, _ => none
    | _ => none
  | .broadcast =>
    match s.receiver with
    | .stored call =>
      let woken := if s.pc call.address = .waiting then s.moved call.address .woken else s
      some { woken with receiver := .idle }
    | _ => none
  | .resume k => if s.pc k = .woken then some (s.moved k .resumed) else none
  | .finish k => if s.pc k = .resumed then finishStep s k else none

/-- The ids of the calls are compared as they should be, however the difference wraps. -/
theorem callFuncs_lawful (size : Nat) [NeZero size] : Lawful (callFuncs size) := by
  have zero : ∀ a b : OutstandingCall, (callFuncs size).compData a b = 0 ↔ a.id = b.id := by
    intro a b
    show b.id - a.id = 0 ↔ a.id = b.id
    grind
  refine ⟨fun a => (zero a a).mpr rfl, fun a b same => ?_, fun a b c first second => ?_, fun a b same => ?_⟩
  · exact (zero b a).mpr ((zero a b).mp same).symm
  · exact (zero a c).mpr (((zero a b).mp first).trans ((zero b c).mp second))
  · exact (zero a b).mp same

/-- What the caller of a call is owed when this is the reply. -/
def payload : Dispatched → Answer
  | .result text => .result text
  | .error text => .error text

/-- What `handleReturn` makes of the reply. -/
def answerOf : Dispatched → Except Fault Answer
  | .result text => makeAnswer false text
  | .error text => makeAnswer true (some text)

/-- The line of a reply is taken apart into its id and its answer. -/
theorem replyLine_parsed (table : Hasht (callFuncs size)) (id : Int32) (reply : Dispatched) :
    ∃ message, findCall table (fields (replyLine id reply)) = .ok (hashFind table ⟨id, 0⟩, message) ∧
      makeAnswer (strcaseEq (keyword (replyLine id reply)) (lit "E")) message = answerOf reply := by
  have parse : ∀ {line message : Text} {rest : Option Text}, fields line = some message →
      strsep (some message) (lit " \t") = (some (printInt id), rest) →
      findCall table (fields line) = .ok (hashFind table ⟨id, 0⟩, rest) := by
    intro line message rest behind split
    simp [findCall, behind, split, nonNull, atoi_printInt, bind, Except.bind, pure, Except.pure]
  have kinds : strcaseEq [byte 'R'] (lit "E") = false ∧ strcaseEq [byte 'E'] (lit "E") = true := by decide
  rcases reply with ⟨_ | text⟩ | text
  · obtain ⟨word, rest⟩ := keyword_head (byte 'R') (by decide) (printInt id)
    exact ⟨none, parse rest (strsep_last (printInt_blank id)), by rw [replyLine, word, kinds.1]; rfl⟩
  · obtain ⟨word, rest⟩ := keyword_head (byte 'R') (by decide) (printInt id ++ byte ' ' :: text)
    rw [replyLine, head_append]
    exact ⟨some text, parse rest (strsep_found (printInt_blank id) (by decide)), by rw [word, kinds.1]; rfl⟩
  · obtain ⟨word, rest⟩ := keyword_head (byte 'E') (by decide) (printInt id ++ byte ' ' :: text)
    rw [replyLine, head_append]
    exact ⟨some text, parse rest (strsep_found (printInt_blank id) (by decide)), by rw [word, kinds.2]; rfl⟩

private theorem replyLine_keyword (id : Int32) (reply : Dispatched) :
    keyword (replyLine id reply) = [byte 'R'] ∨ keyword (replyLine id reply) = [byte 'E'] := by
  rcases reply with ⟨_ | text⟩ | text
  · exact .inl (keyword_head (byte 'R') (by decide) (printInt id)).1
  · rw [replyLine, head_append]
    exact .inl (keyword_head (byte 'R') (by decide) _).1
  · rw [replyLine, head_append]
    exact .inr (keyword_head (byte 'E') (by decide) _).1

/-- The handler of lines leaves such a line to `handleReturn`. -/
theorem replyLine_handled (latest : Int32) (env : Env) {client : Connection size} (running : client.protocolState = .running)
    (id : Int32) (reply : Dispatched) : connectionSockHandler latest env client (replyLine id reply) =
      handleReturn (strcaseEq (keyword (replyLine id reply)) (lit "E")) client (fields (replyLine id reply)) := by
  have result : strcaseEq [byte 'R'] (lit "C") = false ∧ strcaseEq [byte 'R'] (lit "R") = true ∧
      strcaseEq [byte 'R'] (lit "E") = false := by decide
  have exception : strcaseEq [byte 'E'] (lit "C") = false ∧ strcaseEq [byte 'E'] (lit "R") = false ∧
      strcaseEq [byte 'E'] (lit "E") = true := by decide
  simp only [connectionSockHandler, running, runningMessage_eq]
  rcases replyLine_keyword id reply with word | word
  · simp only [word, result, Bool.false_eq_true, if_false, if_true]
  · simp only [word, exception, Bool.false_eq_true, if_false, if_true]

/-- The text of an exception comes out as it was sent when `ErrNew` finds no conversion
    in it and has room for it. -/
theorem exception_same (text : Text) :
    answerOf (.error text) = .ok (.error text) ↔ 37 ∉ text ∧ text.length < errBuffSize := by
  rw [← vsnprintfBare_same (by decide : 0 < errBuffSize)]
  simp only [answerOf, makeAnswer, Option.bind_some, if_true]
  cases vsnprintfBare errBuffSize text <;> simp

/-- The table has the call: until it is deleted, and for good after an exception. -/
def Pc.listed : Pc → Bool
  | .outside | .taken | .returned (.result _ _) => false
  | _ => true

/-- The request was sent and the reply has not woken the call. -/
def Pc.asking : Pc → Bool
  | .sent | .waiting => true
  | _ => false

def Outstanding (s : State size) (call : OutstandingCall) : Prop :=
  call.id = s.ids call.address ∧ (s.pc call.address).listed = true

/-- The thread that handles lines has the reply of the call at hand. -/
def InHand (s : State size) (k : Nat) : Prop :=
  match s.receiver with
  | .idle => False
  | .found call _ _ | .stored call => call.address = k

/-- The call has the answer that a reply with its id was made into. -/
def Answered (s : State size) (k : Nat) : Prop :=
  ∃ reply answer, (s.ids k, reply) ∈ s.received ∧ answerOf reply = .ok answer ∧ s.connection.answers k = some answer

/-- What `textRPC_call` returns for an answer. -/
def outcome (error : Option Text) : Answer → Outcome
  | .result text => .result text error
  | .error description => .exception description

/-- Where the reply of a call is, by how far its thread is. -/
structure Standing (s : State size) (k : Nat) : Prop where
  asking : (s.pc k).asking = true → s.ids k ∈ s.requests ∨ InHand s k
  answered : s.pc k = .woken ∨ s.pc k = .resumed → Answered s k
  returned : ∀ out, s.pc k = .returned out →
    ∃ reply answer, (s.ids k, reply) ∈ s.received ∧ answerOf reply = .ok answer ∧ out = outcome (s.error k) answer

/-- The call at hand is one that waits for its reply, or is about to. -/
def Handling (s : State size) : Prop :=
  match s.receiver with
  | .idle => True
  | .found call isException message =>
    call.id = s.ids call.address ∧ (s.pc call.address).asking = true ∧ call.id ∉ s.requests ∧
      ∃ reply, (call.id, reply) ∈ s.received ∧ makeAnswer isException message = answerOf reply
  | .stored call =>
    call.id = s.ids call.address ∧ s.pc call.address = .waiting ∧ call.id ∉ s.requests ∧ Answered s call.address

/-- The invariant of all calls together, while every request can be sent. -/
structure Coherent (s : State size) : Prop where
  table : ∃ S : Reps (callFuncs_lawful size).setoid,
    Refines (callFuncs_lawful size) s.connection.outstandingCalls S ∧ ∀ call, call ∈ S.carrier ↔ Outstanding s call
  unborn : ∀ k, s.issued ≤ k → s.pc k = .outside
  silent : ∀ k, s.error k = none
  once : s.requests.Nodup
  asked : ∀ id ∈ s.requests, ∃ k, s.ids k = id ∧ (s.pc k).asking = true
  handling : Handling s
  standing : ∀ k, Standing s k

/-- An id that is put into the table is not in it, and requests are sent without error. -/
def Sound (s : State size) : Label → Prop
  | .register k => hashFind s.connection.outstandingCalls ⟨s.ids k, 0⟩ = none
  | .send _ error => error = none
  | _ => True

section
variable {s t : State size} {k : Nat}

@[simp] theorem moved_pc (pc : Pc) : (s.moved k pc).pc = Function.update s.pc k pc := rfl
@[simp] theorem moved_connection (pc : Pc) : (s.moved k pc).connection = s.connection := rfl
@[simp] theorem moved_ids (pc : Pc) : (s.moved k pc).ids = s.ids := rfl
@[simp] theorem moved_requests (pc : Pc) : (s.moved k pc).requests = s.requests := rfl
@[simp] theorem moved_received (pc : Pc) : (s.moved k pc).received = s.received := rfl
@[simp] theorem moved_receiver (pc : Pc) : (s.moved k pc).receiver = s.receiver := rfl
@[simp] theorem moved_error (pc : Pc) : (s.moved k pc).error = s.error := rfl
@[simp] theorem moved_issued (pc : Pc) : (s.moved k pc).issued = s.issued := rfl
@[simp] theorem withTable_pc (table : Hasht (callFuncs size)) : (s.withTable table).pc = s.pc := rfl
@[simp] theorem withTable_receiver (table : Hasht (callFuncs size)) : (s.withTable table).receiver = s.receiver := rfl

theorem register_cases (stepped : step s (.register k) = some t) : s.pc k = .taken ∧
    t = (s.withTable (hashAdd s.connection.outstandingCalls (s.call k) (some k)).1).moved k .registered := by
  obtain ⟨place, same⟩ := Option.ite_none_right_eq_some.mp stepped
  exact ⟨place, (Option.some.inj same).symm⟩

theorem lock_cases (stepped : step s (.lock k) = some t) : s.pc k = .registered ∧ t = s.moved k .locked := by
  obtain ⟨place, same⟩ := Option.ite_none_right_eq_some.mp stepped
  exact ⟨place, (Option.some.inj same).symm⟩

theorem send_cases {error : Option Text} (stepped : step s (.send k error) = some t) : s.pc k = .locked ∧
    t = { s.moved k .sent with
      error := Function.update s.error k error
      requests := if error = none then s.ids k :: s.requests else s.requests } := by
  obtain ⟨place, same⟩ := Option.ite_none_right_eq_some.mp stepped
  exact ⟨place, (Option.some.inj same).symm⟩

theorem wait_cases (stepped : step s (.wait k) = some t) : s.pc k = .sent ∧ t = s.moved k .waiting := by
  obtain ⟨place, same⟩ := Option.ite_none_right_eq_some.mp stepped
  exact ⟨place, (Option.some.inj same).symm⟩

theorem resume_cases (stepped : step s (.resume k) = some t) : s.pc k = .woken ∧ t = s.moved k .resumed := by
  obtain ⟨place, same⟩ := Option.ite_none_right_eq_some.mp stepped
  exact ⟨place, (Option.some.inj same).symm⟩

theorem store_cases (stepped : step s .store = some t) : ∃ call isException message answer,
    s.receiver = .found call isException message ∧ (s.pc call.address).owns = false ∧
      makeAnswer isException message = .ok answer ∧
      t = { s with connection := storeAnswer s.connection call answer, receiver := .stored call } := by
  simp only [step] at stepped
  split at stepped
  · rename_i call isException message found
    split at stepped
    · rename_i answer free made
      exact ⟨call, isException, message, answer, found, free, made, (Option.some.inj stepped).symm⟩
    · cases stepped
  · cases stepped

theorem broadcast_cases (stepped : step s .broadcast = some t) : ∃ call, s.receiver = .stored call ∧
    t = { (if s.pc call.address = .waiting then s.moved call.address .woken else s) with receiver := .idle } := by
  simp only [step] at stepped
  split at stepped
  · rename_i call stored
    exact ⟨call, stored, (Option.some.inj stepped).symm⟩
  · cases stepped

theorem finish_cases (stepped : step s (.finish k) = some t) : s.pc k = .resumed ∧ ∃ answer table,
    s.connection.answers k = some answer ∧ t = (s.withTable table).moved k (.returned (outcome (s.error k) answer)) := by
  obtain ⟨place, finished⟩ := Option.ite_none_right_eq_some.mp stepped
  refine ⟨place, ?_⟩
  unfold finishStep at finished
  split at finished
  · cases finished
  · rename_i description stored
    exact ⟨.error description, s.connection.outstandingCalls, stored, (Option.some.inj finished).symm⟩
  · rename_i text stored
    obtain ⟨out, _, same⟩ := Option.map_eq_some_iff.mp finished
    exact ⟨.result text, out.1, stored, same.symm⟩

/-- A thread that moves keeps what it had, if the place it comes to has it. -/
theorem pc_update {holds : Pc → Bool} {pc : Nat → Pc} {j k : Nat} {after : Pc} (before : holds (pc k) = true)
    (goes : holds (pc j) = true → holds after = true) : holds (Function.update pc j after k) = true := by
  by_cases own : k = j
  · subst own
    rw [Function.update_self]
    exact goes before
  · rwa [Function.update_of_ne own]

theorem asking_listed {pc : Pc} (asks : pc.asking = true) : pc.listed = true := by
  cases pc <;> first | rfl | cases asks

/-- `HashFind` finds the call with the id that is outstanding. -/
theorem find_iff (coherent : Coherent s) (id : Int32) (call : OutstandingCall) :
    hashFind s.connection.outstandingCalls ⟨id, 0⟩ = some call ↔ Outstanding s call ∧ call.id = id := by
  obtain ⟨S, refines, same⟩ := coherent.table
  rw [find_correct refines, Reps.find_eq_some_iff, same]
  refine and_congr_right fun _ => ?_
  show id - call.id = 0 ↔ call.id = id
  grind

/-- No two outstanding calls share an id. -/
theorem distinct (coherent : Coherent s) {j k : Nat} (first : (s.pc j).listed = true) (second : (s.pc k).listed = true)
    (same : s.ids j = s.ids k) : j = k := by
  have left := (find_iff coherent (s.ids k) (s.call j)).mpr ⟨⟨rfl, first⟩, same⟩
  have right := (find_iff coherent (s.ids k) (s.call k)).mpr ⟨⟨rfl, second⟩, rfl⟩
  exact congrArg OutstandingCall.address (Option.some.inj (left.symm.trans right))

/-- What is true of a call stays so while nothing about it changes. -/
theorem standing_frame (standing : Standing s k) (pc : t.pc k = s.pc k) (ids : t.ids k = s.ids k)
    (error : t.error k = s.error k) (answers : t.connection.answers k = s.connection.answers k)
    (received : s.received ⊆ t.received)
    (asking : (s.pc k).asking = true → s.ids k ∈ s.requests ∨ InHand s k → t.ids k ∈ t.requests ∨ InHand t k) :
    Standing t k := by
  refine ⟨fun asks => ?_, fun woken => ?_, fun out back => ?_⟩
  · rw [pc] at asks
    exact asking asks (standing.asking asks)
  · rw [pc] at woken
    obtain ⟨reply, answer, got, made, stored⟩ := standing.answered woken
    exact ⟨reply, answer, ids ▸ received got, made, answers ▸ stored⟩
  · rw [pc] at back
    obtain ⟨reply, answer, got, made, same⟩ := standing.returned out back
    exact ⟨reply, answer, ids ▸ received got, made, error ▸ same⟩

/-- The call of the reply at hand waits for it, or is about to. -/
theorem inHand_asking (coherent : Coherent s) (inHand : InHand s k) : (s.pc k).asking = true := by
  have handling := coherent.handling
  unfold InHand at inHand
  unfold Handling at handling
  split at inHand
  · cases inHand
  · rename_i call _ _ found
    subst inHand
    simp only [found] at handling
    exact handling.2.1
  · rename_i call stored
    subst inHand
    simp only [stored] at handling
    rw [handling.2.1]
    rfl

/-- The table of a state whose thread has moved within the part where its call is listed. -/
private theorem table_kept (coherent : Coherent s) {pc : Pc} (listed : pc.listed = (s.pc k).listed) :
    ∃ S : Reps (callFuncs_lawful size).setoid, Refines (callFuncs_lawful size) s.connection.outstandingCalls S ∧
      ∀ call, call ∈ S.carrier ↔ Outstanding (s.moved k pc) call := by
  obtain ⟨S, refines, same⟩ := coherent.table
  refine ⟨S, refines, fun call => (same call).trans ?_⟩
  by_cases own : call.address = k
  · simp [Outstanding, own, listed]
  · simp [Outstanding, own]

/-- A thread goes on without getting or losing the reply that it waits for. -/
private theorem moved_coherent (coherent : Coherent s) {pc : Pc} {table : Hasht (callFuncs size)}
    (born : s.pc k ≠ .outside) (asking : pc.asking = (s.pc k).asking) (still : s.pc k ≠ .waiting)
    (kept : ∃ S : Reps (callFuncs_lawful size).setoid, Refines (callFuncs_lawful size) table S ∧
      ∀ call, call ∈ S.carrier ↔ Outstanding (s.moved k pc) call)
    (standing : Standing (s.moved k pc) k) : Coherent ((s.withTable table).moved k pc) := by
  have asks : ∀ j, (Function.update s.pc k pc j).asking = (s.pc j).asking := by
    intro j
    by_cases own : j = k
    · rw [own, Function.update_self, asking]
    · rw [Function.update_of_ne own]
  refine ⟨kept, fun j later => ?_, coherent.silent, coherent.once, fun id member => ?_, ?_, fun j => ?_⟩
  · have outside := coherent.unborn j later
    have other : j ≠ k := fun same => born (same ▸ outside)
    simpa [other] using outside
  · obtain ⟨j, same, asking⟩ := coherent.asked id member
    exact ⟨j, same, (asks j).trans asking⟩
  · have handling := coherent.handling
    unfold Handling at handling ⊢
    simp only [moved_receiver, withTable_receiver] at handling ⊢
    split
    · trivial
    · rename_i call _ _ found
      simp only [found] at handling
      exact ⟨handling.1, (asks call.address).trans handling.2.1, handling.2.2⟩
    · rename_i call found
      simp only [found] at handling
      have other : call.address ≠ k := fun same => still (same ▸ handling.2.1)
      exact ⟨handling.1, by simpa [other] using handling.2.1, handling.2.2⟩
  · by_cases own : j = k
    · subst own
      exact ⟨standing.asking, standing.answered, standing.returned⟩
    · exact standing_frame (coherent.standing j) (Function.update_of_ne own _ _) rfl rfl rfl (List.Subset.refl _)
        (fun _ held => held)

/-- A thread that is not yet to wait, or woken, has no more to be true of. -/
private theorem standing_quiet (pc : Pc) (own : s.pc k = pc) (asks : pc.asking = false)
    (woken : pc ≠ .woken ∧ pc ≠ .resumed) (back : ∀ out, pc ≠ .returned out) : Standing s k := by
  subst own
  refine ⟨fun asking => ?_, fun answered => ?_, fun out same => absurd same (back out)⟩
  · rw [asks] at asking; cases asking
  · exact absurd answered (not_or.mpr woken)

private theorem take_coherent (coherent : Coherent s) (stepped : step s .take = some t) : Coherent t := by
  cases stepped
  have outside := coherent.unborn s.issued (Nat.le_refl _)
  have other : ∀ j, (s.pc j).asking = true ∨ (s.pc j).listed = true → j ≠ s.issued := by
    rintro j held rfl
    rw [outside] at held
    simp [Pc.asking, Pc.listed] at held
  refine ⟨?_, fun j later => ?_, coherent.silent, coherent.once, fun id member => ?_, ?_, fun j => ?_⟩
  · obtain ⟨S, refines, same⟩ := coherent.table
    refine ⟨S, refines, fun call => (same call).trans ?_⟩
    by_cases own : call.address = s.issued
    · simp [Outstanding, own, outside, Pc.listed]
    · simp [Outstanding, own]
  · have past : j ≠ s.issued := by simp only at later; omega
    simpa [past] using coherent.unborn j (by simp only at later; omega)
  · obtain ⟨j, same, asking⟩ := coherent.asked id member
    have past := other j (.inl asking)
    exact ⟨j, by simpa [past] using same, by simpa [past] using asking⟩
  · have handling := coherent.handling
    unfold Handling at handling ⊢
    simp only at handling ⊢
    split
    · trivial
    · rename_i call _ _ found
      simp only [found] at handling
      have past := other call.address (.inl handling.2.1)
      simpa [past] using handling
    · rename_i call found
      simp only [found] at handling
      have past := other call.address (.inl (by rw [handling.2.1]; rfl))
      simpa [past, Answered] using handling
  · by_cases own : j = s.issued
    · subst own
      exact standing_quiet .taken (by simp) rfl (by simp) (by simp)
    · exact standing_frame (coherent.standing j) (Function.update_of_ne own _ _) (Function.update_of_ne own _ _) rfl rfl
        (List.Subset.refl _) (fun _ held => by simpa [own, InHand] using held)

private theorem register_coherent (coherent : Coherent s) (fresh : Sound s (.register k))
    (stepped : step s (.register k) = some t) : Coherent t := by
  obtain ⟨place, rfl⟩ := register_cases stepped
  refine moved_coherent coherent (by simp [place]) (by rw [place]; rfl) (by simp [place]) ?_
    (standing_quiet .registered (by simp) rfl (by simp) (by simp))
  obtain ⟨S, refines, same⟩ := coherent.table
  have unheld : ¬ S.Holds (s.call k) := by
    rintro ⟨call, member, related⟩
    have found := (find_iff coherent (s.ids k) call).mpr ⟨(same call).mp member, ?_⟩
    · rw [fresh] at found; cases found
    · have differ : s.ids k - call.id = 0 := related
      grind
  have kept := add_refines refines (s.call k) k
  refine ⟨S.add (s.call k), kept, fun call => (Reps.mem_add_new unheld call).trans ?_⟩
  rw [same]
  by_cases own : call.address = k
  · rcases call with ⟨id, address⟩
    subst own
    simp [Outstanding, State.call, place, Pc.listed]
  · have other : call ≠ s.call k := fun equal => own (congrArg OutstandingCall.address equal)
    simp [Outstanding, own, other]

private theorem lock_coherent (coherent : Coherent s) (stepped : step s (.lock k) = some t) : Coherent t := by
  obtain ⟨place, rfl⟩ := lock_cases stepped
  exact moved_coherent coherent (by simp [place]) (by rw [place]; rfl) (by simp [place])
    (table_kept coherent (by rw [place]; rfl)) (standing_quiet .locked (by simp) rfl (by simp) (by simp))

private theorem wait_coherent (coherent : Coherent s) (stepped : step s (.wait k) = some t) : Coherent t := by
  obtain ⟨place, rfl⟩ := wait_cases stepped
  refine moved_coherent coherent (by simp [place]) (by rw [place]; rfl) (by simp [place])
    (table_kept coherent (by rw [place]; rfl)) ⟨fun _ => ?_, by simp, by simp⟩
  exact (coherent.standing k).asking (by rw [place]; rfl)

private theorem resume_coherent (coherent : Coherent s) (stepped : step s (.resume k) = some t) : Coherent t := by
  obtain ⟨place, rfl⟩ := resume_cases stepped
  refine moved_coherent coherent (by simp [place]) (by rw [place]; rfl) (by simp [place])
    (table_kept coherent (by rw [place]; rfl)) ⟨by simp [Pc.asking], fun _ => ?_, by simp⟩
  exact (coherent.standing k).answered (.inl place)

/-- A call that goes on with its answer comes back: with an exception it stays in the
    table, with a result it is taken out. -/
theorem finish_returns (coherent : Coherent s) (place : s.pc k = .resumed) :
    ∃ answer, s.connection.answers k = some answer ∧ ∃ table,
      step s (.finish k) = some ((s.withTable table).moved k (.returned (outcome (s.error k) answer))) ∧
      ∃ S : Reps (callFuncs_lawful size).setoid, Refines (callFuncs_lawful size) table S ∧
        ∀ call, call ∈ S.carrier ↔ Outstanding (s.moved k (.returned (outcome (s.error k) answer))) call := by
  obtain ⟨reply, answer, _, _, stored⟩ := (coherent.standing k).answered (.inr place)
  refine ⟨answer, stored, ?_⟩
  cases answer with
  | error description =>
    refine ⟨s.connection.outstandingCalls, ?_, table_kept coherent (by rw [place]; rfl)⟩
    simp only [step, place, if_true, finishStep, stored]
    rfl
  | result text =>
    obtain ⟨S, refines, same⟩ := coherent.table
    obtain ⟨after, deleted, kept⟩ := step_refines refines (.delete (s.call k)) trivial
    refine ⟨after, ?_, S.remove (s.call k), kept, fun call => Reps.mem_remove.trans ?_⟩
    · obtain ⟨out, ran, rfl⟩ := Option.map_eq_some_iff.mp deleted
      simp only [step, place, if_true, finishStep, stored, ran, Option.map_some]
      rfl
    · rw [same]
      by_cases own : call.address = k
      · have back : ((s.moved k (.returned (.result text (s.error k)))).pc call.address).listed = false := by
          simp [own, Pc.listed]
        refine ⟨fun held => absurd ?_ held.2, fun held => ?_⟩
        · show s.ids k - call.id = 0
          rw [held.1.1, own]
          grind
        · have listed := held.2
          rw [show outcome (s.error k) (.result text) = .result text (s.error k) from rfl, back] at listed
          cases listed
      · refine ⟨fun held => by simpa [Outstanding, own] using held.1, fun held => ?_⟩
        have outstanding : Outstanding s call := by simpa [Outstanding, own] using held
        refine ⟨outstanding, fun related => own (distinct coherent outstanding.2 (by rw [place]; rfl) ?_)⟩
        have difference : s.ids k - call.id = 0 := related
        rw [← outstanding.1]
        grind

private theorem finish_coherent (coherent : Coherent s) (stepped : step s (.finish k) = some t) : Coherent t := by
  have place := (finish_cases stepped).1
  obtain ⟨reply, answer, got, made, stored⟩ := (coherent.standing k).answered (.inr place)
  obtain ⟨_, found, table, finished, kept⟩ := finish_returns coherent place
  obtain rfl := Option.some.inj (stored.symm.trans found)
  obtain rfl := Option.some.inj (finished.symm.trans stepped)
  have quiet : (Pc.returned (outcome (s.error k) answer)).asking = false := rfl
  refine moved_coherent coherent (by simp [place]) (by rw [place]; rfl) (by simp [place]) kept
    ⟨by simp [quiet], by simp, fun out back => ⟨reply, answer, got, made, ?_⟩⟩
  simpa using back.symm

private theorem send_coherent (coherent : Coherent s) {error : Option Text} (sent : Sound s (.send k error))
    (stepped : step s (.send k error) = some t) : Coherent t := by
  obtain rfl : error = none := sent
  obtain ⟨place, rfl⟩ := send_cases stepped
  have listed : (s.pc k).listed = true := by rw [place]; rfl
  -- The calls that ask are others, so their ids are.
  have other : ∀ j, (s.pc j).asking = true → j ≠ k ∧ s.ids j ≠ s.ids k := by
    intro j asks
    have apart : j ≠ k := by rintro rfl; rw [place] at asks; cases asks
    exact ⟨apart, fun same => apart (distinct coherent (asking_listed asks) listed same)⟩
  refine ⟨table_kept coherent (by rw [place]; rfl), ?_, ?_, ?_, ?_, ?_, ?_⟩
  · intro j later
    have outside := coherent.unborn j later
    have apart : j ≠ k := by rintro rfl; rw [place] at outside; cases outside
    simpa [apart] using outside
  · intro j
    by_cases own : j = k
    · simp [own]
    · simpa [own] using coherent.silent j
  · refine List.nodup_cons.mpr ⟨fun member => ?_, coherent.once⟩
    obtain ⟨j, same, asks⟩ := coherent.asked _ member
    exact (other j asks).2 same
  · intro id member
    rcases List.mem_cons.mp member with rfl | earlier
    · exact ⟨k, rfl, by simp [Pc.asking]⟩
    · obtain ⟨j, same, asks⟩ := coherent.asked id earlier
      exact ⟨j, same, by simpa [(other j asks).1] using asks⟩
  · have handling := coherent.handling
    unfold Handling at handling ⊢
    simp only [moved_receiver] at handling ⊢
    split
    · trivial
    · rename_i call _ _ found
      simp only [found] at handling
      obtain ⟨apart, ids⟩ := other call.address handling.2.1
      simpa [apart, handling.1, ids] using handling
    · rename_i call found
      simp only [found] at handling
      obtain ⟨apart, ids⟩ := other call.address (by rw [handling.2.1]; rfl)
      refine ⟨handling.1, by simpa [apart] using handling.2.1, ?_, handling.2.2.2⟩
      simpa [handling.1, ids] using handling.2.2.1
  · intro j
    by_cases own : j = k
    · subst own
      exact ⟨fun _ => .inl (by simp), by simp, by simp⟩
    · refine standing_frame (coherent.standing j) (Function.update_of_ne own _ _) rfl (Function.update_of_ne own _ _) rfl
        (List.Subset.refl _) (fun _ held => ?_)
      exact held.imp (fun member => List.mem_cons_of_mem _ member) id

/-- A call that asks is what `HashFind` gives for its id. -/
theorem asking_found (coherent : Coherent s) (asks : (s.pc k).asking = true) :
    hashFind s.connection.outstandingCalls ⟨s.ids k, 0⟩ = some (s.call k) :=
  (find_iff coherent (s.ids k) (s.call k)).mpr ⟨⟨rfl, asking_listed asks⟩, rfl⟩

/-- A reply to a request finds the call that asks; any other reply changes nothing. -/
theorem receive_cases (coherent : Coherent s) {id : Int32} {reply : Dispatched}
    (stepped : step s (.receive id reply) = some t) : s.receiver = .idle ∧
      ((id ∉ s.requests ∧ hashFind s.connection.outstandingCalls ⟨id, 0⟩ = none ∧ t = s) ∨
      ∃ k isException message, id ∈ s.requests ∧ s.ids k = id ∧ (s.pc k).asking = true ∧
        makeAnswer isException message = answerOf reply ∧
        t = { s with requests := s.requests.erase id, received := (id, reply) :: s.received
                     receiver := .found (s.call k) isException message }) := by
  obtain ⟨message, parsed, made⟩ := replyLine_parsed s.connection.outstandingCalls id reply
  simp only [step, receiveStep, parsed] at stepped
  split at stepped
  · rename_i outstandingCall _ idle same
    cases same
    refine ⟨idle, ?_⟩
    split at stepped
    · rename_i asked
      obtain ⟨k, rfl, asks⟩ := coherent.asked id asked
      rw [asking_found coherent asks] at stepped
      exact .inr ⟨k, _, message, asked, rfl, asks, made, (Option.some.inj stepped).symm⟩
    · rename_i unasked
      split at stepped
      · rename_i absent
        exact .inl ⟨unasked, absent, (Option.some.inj stepped).symm⟩
      · cases stepped
  · cases stepped

private theorem receive_coherent (coherent : Coherent s) {id : Int32} {reply : Dispatched}
    (stepped : step s (.receive id reply) = some t) : Coherent t := by
  rcases receive_cases coherent stepped with ⟨idle, ⟨_, _, rfl⟩ | ⟨k, isException, message, asked, rfl, asks, made, rfl⟩⟩
  · exact coherent
  · have only : ∀ j, (s.pc j).asking = true → s.ids j = s.ids k → j = k := fun j asksToo same =>
      distinct coherent (asking_listed asksToo) (asking_listed asks) same
    refine ⟨coherent.table, coherent.unborn, coherent.silent, coherent.once.erase _, fun id member => ?_, ?_, fun j => ?_⟩
    · exact coherent.asked id (List.mem_of_mem_erase member)
    · exact ⟨rfl, asks, coherent.once.not_mem_erase, reply, List.mem_cons_self, made⟩
    · refine standing_frame (coherent.standing j) rfl rfl rfl rfl (List.subset_cons_self _ _) (fun asksToo held => ?_)
      by_cases own : j = k
      · exact .inr own.symm
      · have member : s.ids j ∈ s.requests := by simpa [InHand, idle] using held
        exact .inl ((List.mem_erase_of_ne fun same => own (only j asksToo same)).mpr member)

/-- The call whose answer is stored waits, as its mutex is free. -/
theorem store_waits (coherent : Coherent s) {call : OutstandingCall} {isException : Bool} {message : Option Text}
    (found : s.receiver = .found call isException message) (free : (s.pc call.address).owns = false) :
    s.pc call.address = .waiting := by
  have handling := coherent.handling
  simp only [Handling, found] at handling
  have asks := handling.2.1
  revert free asks
  cases s.pc call.address <;> simp [Pc.asking, Pc.owns]

private theorem store_coherent (coherent : Coherent s) (stepped : step s .store = some t) : Coherent t := by
  obtain ⟨call, isException, message, answer, found, free, made, rfl⟩ := store_cases stepped
  have waits := store_waits coherent found free
  have handling := coherent.handling
  simp only [Handling, found] at handling
  obtain ⟨id, _, replied, reply, got, same⟩ := handling
  refine ⟨coherent.table, coherent.unborn, coherent.silent, coherent.once, coherent.asked, ?_, ?_⟩
  · exact ⟨id, waits, replied, reply, answer, id ▸ got, same ▸ made, Function.update_self _ _ _⟩
  · intro j
    by_cases own : j = call.address
    · exact ⟨fun _ => .inr own.symm, by simp [own, waits], by simp [own, waits]⟩
    · refine standing_frame (coherent.standing j) rfl rfl rfl (Function.update_of_ne own _ _) (List.Subset.refl _) ?_
      exact fun _ held => by simpa [InHand, found] using held

/-- The broadcast meets its call in the wait. -/
theorem broadcast_wakes (coherent : Coherent s) (stepped : step s .broadcast = some t) :
    ∃ call, s.receiver = .stored call ∧ s.pc call.address = .waiting ∧
      t = { s.moved call.address .woken with receiver := .idle } := by
  obtain ⟨call, stored, rfl⟩ := broadcast_cases stepped
  have handling := coherent.handling
  simp only [Handling, stored] at handling
  exact ⟨call, stored, handling.2.1, by rw [if_pos handling.2.1]⟩

private theorem broadcast_coherent (coherent : Coherent s) (stepped : step s .broadcast = some t) : Coherent t := by
  obtain ⟨call, stored, waits, rfl⟩ := broadcast_wakes coherent stepped
  have handling := coherent.handling
  simp only [Handling, stored] at handling
  obtain ⟨id, _, replied, answered⟩ := handling
  refine ⟨table_kept coherent (by rw [waits]; rfl), ?_, coherent.silent, coherent.once, ?_, trivial, ?_⟩
  · intro j later
    have outside := coherent.unborn j later
    have apart : j ≠ call.address := by rintro rfl; rw [waits] at outside; cases outside
    simpa [apart] using outside
  · intro other member
    obtain ⟨j, rfl, asks⟩ := coherent.asked other member
    have apart : j ≠ call.address := by rintro rfl; exact replied (id ▸ member)
    exact ⟨j, rfl, by simpa [apart] using asks⟩
  · intro j
    by_cases own : j = call.address
    · subst own
      exact ⟨by simp [Pc.asking], fun _ => answered, by simp⟩
    · refine standing_frame (coherent.standing j) (Function.update_of_ne own _ _) rfl rfl rfl (List.Subset.refl _) ?_
      exact fun _ held => held.imp_right fun inHand => own (by simpa [InHand, stored, eq_comm] using inHand)

/-- Every sound step keeps the invariant. -/
theorem step_coherent (s : State size) (a : Label) (t : State size) (coherent : Coherent s) (sound : Sound s a)
    (stepped : step s a = some t) : Coherent t := by
  cases a with
  | take => exact take_coherent coherent stepped
  | register k => exact register_coherent coherent sound stepped
  | lock k => exact lock_coherent coherent stepped
  | send k error => exact send_coherent coherent sound stepped
  | wait k => exact wait_coherent coherent stepped
  | receive id reply => exact receive_coherent coherent stepped
  | store => exact store_coherent coherent stepped
  | broadcast => exact broadcast_coherent coherent stepped
  | resume k => exact resume_coherent coherent stepped
  | finish k => exact finish_coherent coherent stepped

theorem initial_coherent (first protocolVersion : Int32) (tcpConnection : Bool) :
    Coherent (initial size first protocolVersion tcpConnection) := by
  refine ⟨⟨_, create_refines (callFuncs_lawful size), fun call => ?_⟩, fun _ _ => rfl, fun _ => rfl, List.nodup_nil,
    fun id member => ?_, trivial, fun k => ?_⟩
  · simp [Reps.empty, Outstanding, initial, Pc.listed]
  · cases member
  · exact standing_quiet .outside rfl rfl (by simp) (by simp)

/-- The steps that take no id and send and receive nothing. -/
def Label.quiet : Label → Bool
  | .take | .send _ _ | .receive _ _ => false
  | _ => true

/-- What only the other steps touch. -/
structure Kept (s t : State size) : Prop where
  nextCallId : t.nextCallId = s.nextCallId
  issued : t.issued = s.issued
  ids : t.ids = s.ids
  error : t.error = s.error
  requests : t.requests = s.requests
  received : t.received = s.received

theorem quiet_kept {a : Label} (quiet : a.quiet = true) (stepped : step s a = some t) : Kept s t := by
  cases a with
  | take | send k error | receive id reply => cases quiet
  | register k =>
    obtain ⟨_, rfl⟩ := register_cases stepped
    exact ⟨rfl, rfl, rfl, rfl, rfl, rfl⟩
  | lock k =>
    obtain ⟨_, rfl⟩ := lock_cases stepped
    exact ⟨rfl, rfl, rfl, rfl, rfl, rfl⟩
  | wait k =>
    obtain ⟨_, rfl⟩ := wait_cases stepped
    exact ⟨rfl, rfl, rfl, rfl, rfl, rfl⟩
  | resume k =>
    obtain ⟨_, rfl⟩ := resume_cases stepped
    exact ⟨rfl, rfl, rfl, rfl, rfl, rfl⟩
  | store =>
    obtain ⟨_, _, _, _, _, _, _, rfl⟩ := store_cases stepped
    exact ⟨rfl, rfl, rfl, rfl, rfl, rfl⟩
  | broadcast =>
    obtain ⟨_, _, rfl⟩ := broadcast_cases stepped
    split <;> exact ⟨rfl, rfl, rfl, rfl, rfl, rfl⟩
  | finish k =>
    obtain ⟨_, _, _, _, rfl⟩ := finish_cases stepped
    exact ⟨rfl, rfl, rfl, rfl, rfl, rfl⟩

/-- The steps that need neither a new call nor the peer. -/
def Label.onward : Label → Bool
  | .wait _ | .store | .broadcast | .resume _ | .finish _ => true
  | _ => false

theorem onward_sound {a : Label} (onward : a.onward = true) : Sound s a ∧ a.quiet = true := by
  cases a with
  | take | register k | lock k | send k error | receive id reply => cases onward
  | _ => exact ⟨trivial, rfl⟩

/-- A run of such steps keeps the invariant and what is recorded of the calls. -/
theorem onward_run {labels : List Label} (onward : ∀ a ∈ labels, a.onward = true) (coherent : Coherent s)
    (ran : run step s labels = some t) : Coherent t ∧ Kept s t := by
  refine guarded_run (fun m => Coherent m ∧ Kept s m) (fun m a n before onward stepped => ?_)
    ⟨coherent, rfl, rfl, rfl, rfl, rfl, rfl⟩ (guarded_forall fun a member _ => onward a member) ran
  obtain ⟨sound, quiet⟩ := onward_sound (s := m) onward
  have kept := quiet_kept quiet stepped
  refine ⟨step_coherent m a n before.1 sound stepped, ?_⟩
  exact ⟨kept.nextCallId.trans before.2.nextCallId, kept.issued.trans before.2.issued, kept.ids.trans before.2.ids,
    kept.error.trans before.2.error, kept.requests.trans before.2.requests, kept.received.trans before.2.received⟩

/-- The call comes to its return when its thread and the handler of lines go on. -/
def Returns (s : State size) (k : Nat) (out : Outcome) : Prop :=
  ∃ labels t, (∀ a ∈ labels, Label.onward a = true) ∧ run step s labels = some t ∧ t.pc k = .returned out

private theorem returns_step {out : Outcome} {a : Label} (onward : a.onward = true) (stepped : step s a = some t)
    (back : Returns t k out) : Returns s k out := by
  obtain ⟨labels, u, all, ran, place⟩ := back
  exact ⟨a :: labels, u, List.forall_mem_cons.mpr ⟨onward, all⟩, run_cons.mpr ⟨t, stepped, ran⟩, place⟩

private theorem returns_resumed (coherent : Coherent s) (place : s.pc k = .resumed) : ∃ out, Returns s k out := by
  obtain ⟨answer, _, _, finished, _⟩ := finish_returns coherent place
  refine ⟨outcome (s.error k) answer, returns_step rfl finished ⟨[], _, nofun, rfl, ?_⟩⟩
  simp

private theorem returns_woken (coherent : Coherent s) (place : s.pc k = .woken) : ∃ out, Returns s k out := by
  have stepped : step s (.resume k) = some (s.moved k .resumed) := by simp [step, place]
  obtain ⟨out, back⟩ := returns_resumed (resume_coherent coherent stepped) (show (s.moved k .resumed).pc k = _ by simp)
  exact ⟨out, returns_step rfl stepped back⟩

private theorem returns_stored (coherent : Coherent s) {call : OutstandingCall} (stored : s.receiver = .stored call) :
    ∃ out, Returns s call.address out := by
  have handling := coherent.handling
  simp only [Handling, stored] at handling
  have waits := handling.2.1
  have stepped : step s .broadcast = some { s.moved call.address .woken with receiver := .idle } := by
    simp [step, stored, waits]
  obtain ⟨out, back⟩ := returns_woken (k := call.address) (broadcast_coherent coherent stepped) (by simp)
  exact ⟨out, returns_step rfl stepped back⟩

private theorem returns_waiting (coherent : Coherent s) {call : OutstandingCall} {isException : Bool}
    {message : Option Text} {answer : Answer} (found : s.receiver = .found call isException message)
    (made : makeAnswer isException message = .ok answer) (place : s.pc call.address = .waiting) :
    ∃ out, Returns s call.address out := by
  have stepped : step s .store =
      some { s with connection := storeAnswer s.connection call answer, receiver := .stored call } := by
    simp [step, found, made, place, Pc.owns]
  obtain ⟨out, back⟩ := returns_stored (store_coherent coherent stepped) rfl
  exact ⟨out, returns_step rfl stepped back⟩

private theorem returns_found (coherent : Coherent s) {call : OutstandingCall} {isException : Bool}
    {message : Option Text} {answer : Answer} (found : s.receiver = .found call isException message)
    (made : makeAnswer isException message = .ok answer) : ∃ out, Returns s call.address out := by
  have handling := coherent.handling
  simp only [Handling, found] at handling
  have asks := handling.2.1
  cases place : s.pc call.address with
  | waiting => exact returns_waiting coherent found made place
  | sent =>
    -- The handler waits for the mutex until the thread of the call waits.
    have stepped : step s (.wait call.address) = some (s.moved call.address .waiting) := by simp [step, place]
    obtain ⟨out, back⟩ := returns_waiting (s := s.moved call.address .waiting) (wait_coherent coherent stepped) found made
      (by simp)
    exact ⟨out, returns_step rfl stepped back⟩
  | _ => rw [place] at asks; cases asks

/-- A call whose reply was received comes back, when `ErrNew` copes with the reply. -/
theorem replied_returns (coherent : Coherent s) (formed : ∀ p ∈ s.received, ∃ answer, answerOf p.2 = .ok answer)
    (replied : InHand s k ∨ s.pc k = .woken ∨ s.pc k = .resumed) : ∃ out, Returns s k out := by
  rcases replied with inHand | woken | resumed
  · have handling := coherent.handling
    unfold InHand at inHand
    split at inHand
    · cases inHand
    · rename_i call isException message found
      subst inHand
      simp only [Handling, found] at handling
      obtain ⟨_, _, _, reply, got, same⟩ := handling
      obtain ⟨answer, made⟩ := formed _ got
      exact returns_found coherent found (same.trans made)
    · rename_i call stored
      subst inHand
      exact returns_stored coherent stored
  · exact returns_woken coherent woken
  · exact returns_resumed coherent resumed

/-- What a call comes back with is made of a reply with its id. -/
theorem returns_reply (coherent : Coherent s) {out : Outcome} (back : Returns s k out) :
    ∃ reply answer, (s.ids k, reply) ∈ s.received ∧ answerOf reply = .ok answer ∧ out = outcome (s.error k) answer := by
  obtain ⟨labels, t, onward, ran, place⟩ := back
  obtain ⟨after, kept⟩ := onward_run onward coherent ran
  have owed := (after.standing k).returned out place
  rwa [kept.ids, kept.received, kept.error] at owed

/-- Received, stored and broadcast at once, a reply is handled as by the handler of lines. -/
theorem handler_steps (latest : Int32) (coherent : Coherent s) (running : s.connection.protocolState = .running)
    (idle : s.receiver = .idle) {reply : Dispatched} {answer : Answer} (asked : s.ids k ∈ s.requests)
    (waits : s.pc k = .waiting) (made : answerOf reply = .ok answer) : ∃ t,
    run step s [.receive (s.ids k) reply, .store, .broadcast] = some t ∧ t.pc k = .woken ∧
      connectionSockHandler latest ⟨true, true⟩ s.connection (replyLine (s.ids k) reply) =
        .ok (t.connection, [.finish (s.call k) answer]) := by
  obtain ⟨message, parsed, same⟩ := replyLine_parsed s.connection.outstandingCalls (s.ids k) reply
  rw [made] at same
  have found := asking_found coherent (k := k) (by rw [waits]; rfl)
  refine ⟨{ s.moved k .woken with
    connection := storeAnswer s.connection (s.call k) answer, requests := s.requests.erase (s.ids k),
    received := (s.ids k, reply) :: s.received }, ?_, by simp, ?_⟩
  · simp [run, step, receiveStep, parsed, idle, asked, found, same, waits, State.call, Pc.owns]
    rfl
  · rw [replyLine_handled latest _ running, handleReturn, parsed]
    simp [bind, Except.bind, found, same, pure, Except.pure]

end

end VoxiUtil.TextRpcCalls
