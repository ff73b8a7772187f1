import VoxiUtil.TextRpcFraming

/-!
Both ends of a new connection: the server asks for the version of the client, the
client answers, and each end runs from then on. Bytes that one end sends are read
by the other in order, line by line. The two ends leave the negotiation one after
the other, and calls start on each of them at once.
-/
namespace VoxiUtil.TextRpcNegotiation
open VoxiUtil.CString VoxiUtil.Stdio VoxiUtil.File VoxiUtil.Hash VoxiUtil.Runs VoxiUtil.TextRpc VoxiUtil.TextRpcLines
open VoxiUtil.TextRpcFraming
variable {m n size : Nat} [NeZero m] [NeZero n] [NeZero size]

/-- One end: its connection, the lines that are not handled yet, what the handler has
    still to do for the last line, the inputs of the calls that are not answered,
    whether `callConnectionOpened` was started, and the fault that stopped the handler.
    `handled` has each line with the state in which it was handled. -/
structure End (size : Nat) [NeZero size] where
  connection : Connection size
  inbox : List Text
  todo : List Effect
  incoming : List Text
  opened : Bool
  failed : Option Fault
  handled : List (ProtocolState × Text)

/-- The steps at one end: the handler takes a line or does the next thing for the last
    one, a call of the application is registered and sent or taken from the table, and
    the thread of an incoming call sends its answer. -/
inductive EndLabel where
  | handle
  | act
  | call (id : Int32) (block : Nat) (text : Text)
  | forget (call : OutstandingCall)
  | answer (input : Text) (result : Dispatched)

/-- The thread in `textRPC_client_create`: before `sock_connect`, behind it, with `initMutex`,
    in its wait, after the broadcast, and back. -/
inductive Creator where
  | creating
  | connected
  | locked
  | waiting
  | woken
  | returned
deriving DecidableEq

/-- The thread that runs `negotiate_protocol`. -/
inductive Negotiator where
  | absent
  | started
  | done
deriving DecidableEq

structure State (m n : Nat) [NeZero m] [NeZero n] where
  client : End m
  server : End n
  creator : Creator
  negotiator : Negotiator
  broadcasts : Nat

inductive Label where
  | connect
  | lock
  | wait
  | back
  | accept
  | negotiate
  | client (a : EndLabel)
  | server (a : EndLabel)

def End.start (connection : Connection size) : End size := ⟨connection, [], [], [], false, none, []⟩

/-- The client as it is before it connects, and memory for the connection of the server. -/
def initial (m n : Nat) [NeZero m] [NeZero n] (clientLatest garbage : Int32) : State m n where
  client := .start (connectionCreate clientLatest false)
  server := .start { connectionCreate garbage true with protocolState := .initializing }
  creator := .creating
  negotiator := .absent
  broadcasts := 0

def End.handleStep (latest : Int32) (e : End size) : Option (End size) :=
  match e.inbox, e.todo, e.failed with
  | line :: rest, [], none =>
    let e := { e with inbox := rest, handled := (e.connection.protocolState, line) :: e.handled }
    match connectionSockHandler latest ⟨true, true⟩ e.connection line with
    | .error fault => some { e with failed := some fault }
    | .ok (connection, effects) => some { e with connection := connection, todo := effects }
  | _, _, _ => none

def End.withTable (e : End size) (table : Hasht (callFuncs size)) : End size :=
  { e with connection := { e.connection with outstandingCalls := table } }

/-- What an end does in a step: its new state, the bytes that it sends and whether it
    broadcasts `initFinishedCondition`. -/
def endStep (latest : Int32) (mayCall : Bool) (e : End size) : EndLabel → Option (End size × Text × Bool)
  | .handle => (e.handleStep latest).map fun after => (after, [], false)
  | .act =>
    match e.todo with
    | [] => none
    | .send line :: rest => some ({ e with todo := rest }, line, false)
    | .broadcastInit :: rest => some ({ e with todo := rest }, [], true)
    | .runOpened :: rest => some ({ e with todo := rest, opened := true }, [], false)
    | .runCall input :: rest => some ({ e with todo := rest, incoming := input :: e.incoming }, [], false)
    | .finish _ _ :: rest | .report :: rest => some ({ e with todo := rest }, [], false)
  | .call id block text =>
    if mayCall then
      (callText id text).map fun line =>
        (e.withTable (hashAdd e.connection.outstandingCalls ⟨id, block⟩ (some block)).1, line, false)
    else none
  | .forget call => (hashDelete e.connection.outstandingCalls call).map fun out => (e.withTable out.1, [], false)
  | .answer input result =>
    match incomingCall input with
    | .ok (id, _) =>
      if input ∈ e.incoming then
        (answerText id result).map fun line => ({ e with incoming := e.incoming.erase input }, line, false)
      else none
    | .error _ => none

/-- The creating thread moves on from one place. -/
def State.created (s : State m n) (before after : Creator) : Option (State m n) :=
  if s.creator = before then some { s with creator := after } else none

/-- The application of the client calls only after `textRPC_client_create`, that of the
    server only after `connectionOpenedFunc`. A wait ends with a broadcast only. -/
def step (clientLatest serverLatest : Int32) (s : State m n) : Label → Option (State m n)
  | .connect => s.created .creating .connected
  | .lock => s.created .connected .locked
  | .wait => s.created .locked .waiting
  | .back => s.created .woken .returned
  | .accept =>
    if s.negotiator = .absent then
      some { s with server := { s.server with connection := connectionCreate (-1) true }, negotiator := .started }
    else none
  | .negotiate =>
    if s.negotiator = .started then
      (receivedLines (requestLine serverLatest)).map fun lines =>
        { s with client := { s.client with inbox := s.client.inbox ++ lines }, negotiator := .done }
    else none
  | .client a =>
    if s.creator = .creating then none
    else do
      let (client, bytes, broadcast) ← endStep clientLatest (s.creator = .returned) s.client a
      let lines ← receivedLines bytes
      return { s with
        client := client
        server := { s.server with inbox := s.server.inbox ++ lines }
        creator := if broadcast ∧ s.creator = .waiting then .woken else s.creator
        broadcasts := if broadcast then s.broadcasts + 1 else s.broadcasts }
  | .server a => do
    let (server, bytes, _) ← endStep serverLatest s.server.opened s.server a
    let lines ← receivedLines bytes
    return { s with server := server, client := { s.client with inbox := s.client.inbox ++ lines } }

/-- A line that calls or answers. -/
def isCallLine (line : Text) : Bool :=
  strcaseEq (keyword line) (lit "C") || strcaseEq (keyword line) (lit "R") || strcaseEq (keyword line) (lit "E")

/-- What is expected of an end: no fault while it negotiates, the version once it runs,
    and no call or answer handled before. -/
structure Agrees (version : Int32) (e : End size) : Prop where
  unfailed : ∀ fault, e.failed = some fault → e.connection.protocolState = .running
  version : e.connection.protocolState = .running → e.connection.protocolVersion = version
  handled : ∀ p ∈ e.handled, isCallLine p.2 = true → p.1 = .running

/-- The lines of the negotiation, as they are read. -/
def requestBody (latest : Int32) : Text := lit "protocolVersion-request" ++ byte ' ' :: printInt latest
def versionBody (version : Int32) : Text := lit "protocolVersion" ++ byte ' ' :: printInt version

private theorem number_received (word : Text) (value : Int32) (oneLine : LF ∉ word) (noReturn : CR ∉ word) (noNul : 0 ∉ word)
    (content : isComment word = false) (nonempty : word ≠ []) (short : word.length < 100) :
    receivedLines (word ++ byte ' ' :: printInt value ++ [LF]) = some [word ++ byte ' ' :: printInt value] := by
  have digits := printInt_length value
  have free : ∀ c : UInt8, c ∉ word → c ≠ byte ' ' → c ∉ printInt value → c ∉ word ++ byte ' ' :: printInt value := by
    intro c outside blank digits
    simp [outside, blank, digits]
  refine line_received (free LF oneLine (by decide) (printInt_free value (by decide) rfl))
    (free 0 noNul (by decide) (printInt_free value (by decide) rfl))
    (free CR noReturn (by decide) (printInt_free value (by decide) rfl)) (by simp) ?_ ?_
  · obtain ⟨c, rest, rfl⟩ := List.exists_cons_of_ne_nil nonempty
    exact content
  · simp only [List.length_append, List.length_cons]
    omega

theorem request_received (latest : Int32) : receivedLines (requestLine latest) = some [requestBody latest] := by
  have written : requestLine latest = lit "protocolVersion-request" ++ byte ' ' :: printInt latest ++ [LF] := by
    have blank : lit "protocolVersion-request " = lit "protocolVersion-request" ++ [byte ' '] := by decide
    have newline : lit "\n" = [LF] := by decide
    simp [requestLine, blank, newline]
  rw [written]
  exact number_received _ latest (by decide) (by decide) (by decide) (by decide) (by decide) (by decide)

theorem version_received (version : Int32) : receivedLines (versionLine version) = some [versionBody version] := by
  have written : versionLine version = lit "protocolVersion" ++ byte ' ' :: printInt version ++ [LF] := by
    have blank : lit "protocolVersion " = lit "protocolVersion" ++ [byte ' '] := by decide
    have newline : lit "\n" = [LF] := by decide
    simp [versionLine, blank, newline]
  rw [written]
  exact number_received _ version (by decide) (by decide) (by decide) (by decide) (by decide) (by decide)

private theorem number_field (word : Text) (solid : byte ' ' ∉ word) (value : Int32) :
    keyword (word ++ byte ' ' :: printInt value) = word ∧
      firstField (word ++ byte ' ' :: printInt value) (lit " ") = some (printInt value) := by
  obtain ⟨first, rest⟩ := word_line solid (printInt value)
  have blank : lit " " = [byte ' '] := by decide
  have digits : byte ' ' ∉ printInt value := printInt_free value (by decide) rfl
  have free : ∀ b ∈ printInt value, b ∉ lit " " := by
    intro b member
    rw [blank, List.mem_singleton]
    rintro rfl
    exact digits member
  exact ⟨first, by rw [firstField, rest, strsep_last free]⟩

/-- The client answers a request with the lower version and runs with it. -/
theorem request_negotiated (latest remote : Int32) {client : Connection size}
    (negotiates : client.protocolState = .negotiatingProtocol1) :
    connectionSockHandler latest ⟨true, true⟩ client (requestBody remote) =
      .ok ({ client with protocolVersion := min latest remote, protocolState := .running },
        [.send (versionLine (min latest remote)), .broadcastInit, .runOpened]) := by
  obtain ⟨word, field⟩ := number_field (lit "protocolVersion-request") (by decide) remote
  have same : strcaseEq (lit "protocolVersion-request") (lit "protocolVersion-request") = true := by decide
  have lower : (if latest < remote then latest else remote) = min latest remote := by
    rw [Std.min_eq_if]
    grind
  simp only [connectionSockHandler, negotiates, negotiationMessage_eq, requestBody, word, field, same, atoi_printInt, lower,
    and_self, if_true]

/-- The server runs with the version that it is told, when it is not above its own. -/
theorem version_negotiated {latest version : Int32} (allowed : version ≤ latest) {client : Connection size}
    (negotiates : client.protocolState = .negotiatingProtocol1) (fresh : client.protocolVersion = -1) :
    connectionSockHandler latest ⟨true, true⟩ client (versionBody version) =
      .ok ({ client with protocolVersion := version, protocolState := .running }, [.broadcastInit, .runOpened]) := by
  obtain ⟨word, field⟩ := number_field (lit "protocolVersion") (by decide) version
  have other : strcaseEq (lit "protocolVersion") (lit "protocolVersion-request") = false := by decide
  have same : strcaseEq (lit "protocolVersion") (lit "protocolVersion") = true := by decide
  simp only [connectionSockHandler, negotiates, negotiationMessage_eq, versionBody, word, field, other, same, atoi_printInt,
    fresh, allowed, and_self, if_true, Bool.false_eq_true, if_false]

/-- Neither line of the negotiation calls or answers. -/
theorem negotiation_lines (value : Int32) :
    isCallLine (requestBody value) = false ∧ isCallLine (versionBody value) = false := by
  have request := (number_field (lit "protocolVersion-request") (by decide) value).1
  have version := (number_field (lit "protocolVersion") (by decide) value).1
  constructor
  · rw [isCallLine, requestBody, request]; decide
  · rw [isCallLine, versionBody, version]; decide

/-- An end that has nothing to do but to handle what is in its inbox. -/
structure Idle (e : End size) (state : ProtocolState) (version : Int32) (inbox : List Text) : Prop where
  state : e.connection.protocolState = state
  version : e.connection.protocolVersion = version
  inbox : e.inbox = inbox
  todo : e.todo = []
  incoming : e.incoming = []
  opened : e.opened = false
  failed : e.failed = none

structure Running (e : End size) (version : Int32) : Prop where
  state : e.connection.protocolState = .running
  version : e.connection.protocolVersion = version

/-- Calls and answers were handled in the running state only. -/
def Logged (e : End size) : Prop := ∀ p ∈ e.handled, isCallLine p.2 = true → p.1 = .running

/-- `textRPC_client_create` has not met the broadcast. -/
def Creator.early : Creator → Bool
  | .woken | .returned => false
  | _ => true

/-- The broadcast of the client is still to come, or over. -/
def Pending (s : State m n) : Prop :=
  (s.client.todo = [.broadcastInit, .runOpened] ∧ s.broadcasts = 0) ∨ (.broadcastInit ∉ s.client.todo ∧ 0 < s.broadcasts)

/-- How far the negotiation is. -/
inductive Phase (clientLatest serverLatest : Int32) (s : State m n) : Prop where
  | starting (state : ProtocolState) (version : Int32) (client : Idle s.client .negotiatingProtocol1 clientLatest [])
      (server : Idle s.server state version [])
      (thread : s.negotiator = .absent ∧ state = .initializing ∨
        s.negotiator = .started ∧ state = .negotiatingProtocol1 ∧ version = -1)
      (quiet : s.broadcasts = 0)
  | asked (client : Idle s.client .negotiatingProtocol1 clientLatest [requestBody serverLatest])
      (server : Idle s.server .negotiatingProtocol1 (-1) []) (thread : s.negotiator = .done) (quiet : s.broadcasts = 0)
  | answering (client : Running s.client (min clientLatest serverLatest))
      (todo : s.client.todo = [.send (versionLine (min clientLatest serverLatest)), .broadcastInit, .runOpened])
      (incoming : s.client.incoming = []) (server : Idle s.server .negotiatingProtocol1 (-1) [])
      (thread : s.negotiator = .done) (quiet : s.broadcasts = 0)
  | answered (client : Running s.client (min clientLatest serverLatest))
      (server : (∃ rest, Idle s.server .negotiatingProtocol1 (-1) (versionBody (min clientLatest serverLatest) :: rest)) ∨
        Running s.server (min clientLatest serverLatest))
      (thread : s.negotiator = .done) (pending : Pending s)

/-- The invariant of both ends. The creating thread gets past its wait by a broadcast only. -/
structure Negotiates (clientLatest serverLatest : Int32) (s : State m n) : Prop where
  phase : Phase clientLatest serverLatest s
  early : s.broadcasts = 0 → s.creator.early = true
  client : Logged s.client
  server : Logged s.server

section
variable {latest version : Int32} {state : ProtocolState} {e after : End size} {bytes : Text} {broadcast mayCall : Bool}
  {a : EndLabel}

/-- Without a line to handle an idle end can only take a call from its table. -/
private theorem idle_step {inbox : List Text} (idle : Idle e state version inbox)
    (stepped : endStep latest false e a = some (after, bytes, broadcast)) :
    (Idle after state version inbox ∧ after.handled = e.handled ∧ bytes = [] ∧ broadcast = false) ∨
    ∃ line rest, inbox = line :: rest ∧ e.handleStep latest = some after ∧ bytes = [] ∧ broadcast = false := by
  cases a with
  | handle =>
    obtain ⟨_, handled, same⟩ := Option.map_eq_some_iff.mp stepped
    cases same
    have lines := idle.inbox
    cases inbox with
    | nil => simp [End.handleStep, lines] at handled
    | cons line rest => exact .inr ⟨line, rest, rfl, handled, rfl, rfl⟩
  | act => simp [endStep, idle.todo] at stepped
  | call id block text => simp [endStep] at stepped
  | forget call =>
    obtain ⟨out, _, same⟩ := Option.map_eq_some_iff.mp stepped
    cases same
    exact .inl ⟨⟨idle.state, idle.version, idle.inbox, idle.todo, idle.incoming, idle.opened, idle.failed⟩, rfl, rfl, rfl⟩
  | answer input result =>
    simp only [endStep, idle.incoming, List.not_mem_nil, if_false] at stepped
    split at stepped <;> cases stepped

/-- The effects that are left to do, after a step of a running end. -/
inductive Left (e after : End size) (broadcast : Bool) : Prop where
  | same (todo : after.todo = e.todo) (silent : broadcast = false)
  | done (effect : Effect) (rest : List Effect) (todo : e.todo = effect :: rest) (behind : after.todo = rest)
      (loud : broadcast = true ↔ effect = .broadcastInit)
  | handled (todo : e.todo = []) (quiet : .broadcastInit ∉ after.todo) (silent : broadcast = false)

/-- A running end goes on running. -/
private theorem running_step (running : Running e version) (logged : Logged e)
    (stepped : endStep latest mayCall e a = some (after, bytes, broadcast)) :
    Running after version ∧ Logged after ∧ Left e after broadcast := by
  cases a with
  | handle =>
    obtain ⟨_, handled, same⟩ := Option.map_eq_some_iff.mp stepped
    cases same
    unfold End.handleStep at handled
    split at handled
    · rename_i line rest _ todo _
      have longer : ∀ p ∈ (e.connection.protocolState, line) :: e.handled, isCallLine p.2 = true → p.1 = .running := by
        intro p member
        rcases List.mem_cons.mp member with rfl | earlier
        · exact fun _ => running.state
        · exact logged p earlier
      simp only [connectionSockHandler, running.state] at handled
      split at handled
      · cases handled
        exact ⟨⟨running.state, running.version⟩, running.state ▸ longer, .same rfl rfl⟩
      · rename_i connection effects acted
        cases handled
        have keeps := running_keeps acted
        exact ⟨⟨keeps.state.trans running.state, keeps.version.trans running.version⟩, running.state ▸ longer,
          .handled todo keeps.silent rfl⟩
    · cases handled
  | act =>
    simp only [endStep] at stepped
    split at stepped
    · cases stepped
    all_goals
      rename_i rest todo
      cases stepped
      exact ⟨⟨running.state, running.version⟩, logged, .done _ rest todo rfl (by simp)⟩
  | call id block text =>
    simp only [endStep] at stepped
    split at stepped
    · obtain ⟨line, _, same⟩ := Option.map_eq_some_iff.mp stepped
      cases same
      exact ⟨⟨running.state, running.version⟩, logged, .same rfl rfl⟩
    · cases stepped
  | forget call =>
    obtain ⟨out, _, same⟩ := Option.map_eq_some_iff.mp stepped
    cases same
    exact ⟨⟨running.state, running.version⟩, logged, .same rfl rfl⟩
  | answer input result =>
    simp only [endStep] at stepped
    split at stepped
    · split at stepped
      · obtain ⟨line, _, same⟩ := Option.map_eq_some_iff.mp stepped
        cases same
        exact ⟨⟨running.state, running.version⟩, logged, .same rfl rfl⟩
      · cases stepped
    · cases stepped

end

section
variable {clientLatest serverLatest : Int32} {s t : State m n}

/-- The steps of the creating thread alone. -/
private theorem created_negotiates (negotiates : Negotiates clientLatest serverLatest s) {before behind : Creator}
    (early : before.early = true → behind.early = true) (stepped : s.created before behind = some t) :
    Negotiates clientLatest serverLatest t := by
  unfold State.created at stepped
  split at stepped
  · rename_i place
    cases stepped
    refine ⟨?_, fun quiet => early (place ▸ negotiates.early quiet), negotiates.client, negotiates.server⟩
    cases negotiates.phase with
    | starting state version client server thread quiet => exact .starting state version client server thread quiet
    | asked client server thread quiet => exact .asked client server thread quiet
    | answering client todo incoming server thread quiet => exact .answering client todo incoming server thread quiet
    | answered client server thread pending => exact .answered client server thread pending
  · cases stepped

private theorem accept_negotiates (negotiates : Negotiates clientLatest serverLatest s)
    (stepped : step clientLatest serverLatest s .accept = some t) : Negotiates clientLatest serverLatest t := by
  simp only [step] at stepped
  split at stepped
  · rename_i absent
    cases stepped
    refine ⟨?_, negotiates.early, negotiates.client, negotiates.server⟩
    cases negotiates.phase with
    | starting _ _ client server _ quiet =>
      refine .starting .negotiatingProtocol1 (-1) client ?_ (.inr ⟨rfl, rfl, rfl⟩) quiet
      exact ⟨rfl, rfl, server.inbox, server.todo, server.incoming, server.opened, server.failed⟩
    | asked _ _ thread | answering _ _ _ _ thread | answered _ _ thread => rw [absent] at thread; cases thread
  · cases stepped

private theorem negotiate_negotiates (negotiates : Negotiates clientLatest serverLatest s)
    (stepped : step clientLatest serverLatest s .negotiate = some t) : Negotiates clientLatest serverLatest t := by
  simp only [step, request_received, Option.map_some] at stepped
  split at stepped
  · rename_i started
    cases stepped
    refine ⟨?_, negotiates.early, negotiates.client, negotiates.server⟩
    cases negotiates.phase with
    | starting _ _ client server thread quiet =>
      rcases thread with ⟨absent, _⟩ | ⟨_, rfl, rfl⟩
      · rw [started] at absent; cases absent
      · refine .asked ?_ server rfl quiet
        exact ⟨client.state, client.version, by simp [client.inbox], client.todo, client.incoming, client.opened, client.failed⟩
    | asked _ _ thread | answering _ _ _ _ thread | answered _ _ thread => rw [started] at thread; cases thread
  · cases stepped

/-- An idle end with nothing to handle stays so and sends nothing. -/
private theorem idle_silent {latest version : Int32} {state : ProtocolState} {e after : End size} {bytes : Text}
    {broadcast : Bool} {lines : List Text} {a : EndLabel} (idle : Idle e state version [])
    (stepped : endStep latest false e a = some (after, bytes, broadcast)) (received : receivedLines bytes = some lines) :
    Idle after state version [] ∧ after.handled = e.handled ∧ lines = [] ∧ broadcast = false := by
  rcases idle_step idle stepped with ⟨kept, handled, rfl, silent⟩ | ⟨_, _, lines, _⟩
  · rw [receivedLines_nil] at received
    exact ⟨kept, handled, (Option.some.inj received).symm, silent⟩
  · cases lines

private theorem idle_delivered {e : End size} {state : ProtocolState} {version : Int32} {inbox : List Text}
    (idle : Idle e state version inbox) (lines : List Text) :
    Idle { e with inbox := e.inbox ++ lines } state version (inbox ++ lines) :=
  ⟨idle.state, idle.version, by simp [idle.inbox], idle.todo, idle.incoming, idle.opened, idle.failed⟩

/-- The server handles the version that the client told it. -/
private theorem version_handled {e after : End size} {rest : List Text} (logged : Logged e)
    (idle : Idle e .negotiatingProtocol1 (-1) (versionBody (min clientLatest serverLatest) :: rest))
    (handled : e.handleStep serverLatest = some after) :
    Running after (min clientLatest serverLatest) ∧ Logged after := by
  have allowed : min clientLatest serverLatest ≤ serverLatest := by
    rw [Std.min_eq_if]
    grind
  have acted := version_negotiated allowed idle.state idle.version
  simp only [End.handleStep, idle.inbox, idle.todo, idle.failed, acted, Option.some.injEq] at handled
  subst handled
  refine ⟨⟨rfl, rfl⟩, fun p member calls => ?_⟩
  rcases List.mem_cons.mp member with rfl | earlier
  · rw [(negotiation_lines _).2] at calls; cases calls
  · exact logged p earlier calls

/-- The client handles the request of the server. -/
private theorem request_handled {e after : End size} (logged : Logged e)
    (idle : Idle e .negotiatingProtocol1 clientLatest [requestBody serverLatest])
    (handled : e.handleStep clientLatest = some after) :
    Running after (min clientLatest serverLatest) ∧ Logged after ∧ after.incoming = [] ∧
      after.todo = [.send (versionLine (min clientLatest serverLatest)), .broadcastInit, .runOpened] := by
  have acted := request_negotiated clientLatest serverLatest idle.state
  simp only [End.handleStep, idle.inbox, idle.todo, idle.failed, acted, Option.some.injEq] at handled
  subst handled
  refine ⟨⟨rfl, rfl⟩, fun p member calls => ?_, idle.incoming, rfl⟩
  rcases List.mem_cons.mp member with rfl | earlier
  · rw [(negotiation_lines _).1] at calls; cases calls
  · exact logged p earlier calls

theorem server_cases {a : EndLabel} (stepped : step clientLatest serverLatest s (.server a) = some t) :
    ∃ server bytes broadcast lines, endStep serverLatest s.server.opened s.server a = some (server, bytes, broadcast) ∧
      receivedLines bytes = some lines ∧
      t = { s with server := server, client := { s.client with inbox := s.client.inbox ++ lines } } := by
  simp only [step, Option.bind_eq_bind, Option.bind_eq_some_iff, Option.pure_def, Option.some.injEq] at stepped
  obtain ⟨⟨server, bytes, broadcast⟩, did, lines, received, same⟩ := stepped
  exact ⟨server, bytes, broadcast, lines, did, received, same.symm⟩

private theorem server_negotiates {a : EndLabel} (negotiates : Negotiates clientLatest serverLatest s)
    (stepped : step clientLatest serverLatest s (.server a) = some t) : Negotiates clientLatest serverLatest t := by
  obtain ⟨after, bytes, broadcast, lines, did, received, rfl⟩ := server_cases stepped
  cases negotiates.phase with
  | starting state version client server thread quiet =>
    rw [server.opened] at did
    obtain ⟨kept, handled, rfl, _⟩ := idle_silent server did received
    exact ⟨.starting state version (idle_delivered client []) kept thread quiet, negotiates.early, negotiates.client,
      by rw [Logged, handled]; exact negotiates.server⟩
  | asked client server thread quiet =>
    rw [server.opened] at did
    obtain ⟨kept, handled, rfl, _⟩ := idle_silent server did received
    exact ⟨.asked (idle_delivered client []) kept thread quiet, negotiates.early, negotiates.client,
      by rw [Logged, handled]; exact negotiates.server⟩
  | answering client todo incoming server thread quiet =>
    rw [server.opened] at did
    obtain ⟨kept, handled, rfl, _⟩ := idle_silent server did received
    exact ⟨.answering ⟨client.state, client.version⟩ todo incoming kept thread quiet, negotiates.early, negotiates.client,
      by rw [Logged, handled]; exact negotiates.server⟩
  | answered client server thread pending =>
    rcases server with ⟨rest, idle⟩ | running
    · rw [idle.opened] at did
      rcases idle_step idle did with ⟨kept, handled, rfl, _⟩ | ⟨line, _, same, handled, _⟩
      · exact ⟨.answered ⟨client.state, client.version⟩ (.inl ⟨rest, kept⟩) thread pending, negotiates.early,
          negotiates.client, by rw [Logged, handled]; exact negotiates.server⟩
      · obtain ⟨runs, logged⟩ := version_handled negotiates.server idle handled
        exact ⟨.answered ⟨client.state, client.version⟩ (.inr runs) thread pending, negotiates.early, negotiates.client,
          logged⟩
    · obtain ⟨runs, logged, _⟩ := running_step running negotiates.server did
      exact ⟨.answered ⟨client.state, client.version⟩ (.inr runs) thread pending, negotiates.early, negotiates.client,
        logged⟩

/-- A step at the client, in the state that it leaves. -/
def clientDone (s : State m n) (client : End m) (lines : List Text) (broadcast : Bool) : State m n :=
  { s with
    client := client
    server := { s.server with inbox := s.server.inbox ++ lines }
    creator := if broadcast ∧ s.creator = .waiting then .woken else s.creator
    broadcasts := if broadcast then s.broadcasts + 1 else s.broadcasts }

theorem client_cases {a : EndLabel} (stepped : step clientLatest serverLatest s (.client a) = some t) :
    s.creator ≠ .creating ∧ ∃ client bytes broadcast lines,
      endStep clientLatest (s.creator = .returned) s.client a = some (client, bytes, broadcast) ∧
      receivedLines bytes = some lines ∧ t = clientDone s client lines broadcast := by
  simp only [step] at stepped
  split at stepped
  · cases stepped
  · rename_i begun
    simp only [Option.bind_eq_bind, Option.bind_eq_some_iff, Option.pure_def, Option.some.injEq] at stepped
    obtain ⟨⟨client, bytes, broadcast⟩, did, lines, received, same⟩ := stepped
    exact ⟨begun, client, bytes, broadcast, lines, did, received, same.symm⟩

/-- The client has answered the request, and nothing else yet. -/
private theorem answering_step {a : EndLabel} {after : End size} {e : End size} {bytes : Text} {broadcast : Bool}
    {version : Int32} (running : Running e version) (logged : Logged e) (incoming : e.incoming = [])
    (todo : e.todo = [.send (versionLine version), .broadcastInit, .runOpened])
    (stepped : endStep clientLatest false e a = some (after, bytes, broadcast)) :
    Running after version ∧ Logged after ∧ broadcast = false ∧
      ((after.todo = e.todo ∧ after.incoming = [] ∧ bytes = []) ∨
        after.todo = [.broadcastInit, .runOpened] ∧ bytes = versionLine version) := by
  obtain ⟨runs, logs, _⟩ := running_step running logged stepped
  refine ⟨runs, logs, ?_⟩
  cases a with
  | handle => simp [endStep, End.handleStep, todo] at stepped
  | act =>
    simp only [endStep, todo, Option.some.injEq, Prod.mk.injEq] at stepped
    obtain ⟨rfl, rfl, rfl⟩ := stepped
    exact ⟨rfl, .inr ⟨rfl, rfl⟩⟩
  | call id block text => simp [endStep] at stepped
  | forget call =>
    obtain ⟨out, _, same⟩ := Option.map_eq_some_iff.mp stepped
    cases same
    exact ⟨rfl, .inl ⟨rfl, incoming, rfl⟩⟩
  | answer input result =>
    simp only [endStep, incoming, List.not_mem_nil, if_false] at stepped
    split at stepped <;> cases stepped

private theorem pending_step {client : End m} {lines : List Text} {broadcast : Bool} (pending : Pending s)
    (left : Left s.client client broadcast) : Pending (clientDone s client lines broadcast) := by
  rcases pending with ⟨todo, quiet⟩ | ⟨made, some⟩
  · cases left with
    | same kept silent => exact .inl ⟨kept.trans todo, by simp [clientDone, silent, quiet]⟩
    | done effect rest first behind loud =>
      obtain ⟨rfl, rfl⟩ := List.cons.inj (todo.symm.trans first)
      exact .inr ⟨by simp [clientDone, behind], by simp [clientDone, loud.mpr rfl]⟩
    | handled nothing => rw [todo] at nothing; cases nothing
  · have more : 0 < (clientDone s client lines broadcast).broadcasts := by
      cases broadcast
      · exact some
      · exact Nat.succ_pos _
    refine .inr ⟨?_, more⟩
    cases left with
    | same kept _ => show _ ∉ client.todo; rwa [kept]
    | done effect rest first behind _ =>
      show _ ∉ client.todo
      rw [first, List.mem_cons, not_or] at made
      rw [behind]
      exact made.2
    | handled _ quiet _ => exact quiet

private theorem client_negotiates {a : EndLabel} (negotiates : Negotiates clientLatest serverLatest s)
    (stepped : step clientLatest serverLatest s (.client a) = some t) : Negotiates clientLatest serverLatest t := by
  obtain ⟨_, after, bytes, broadcast, lines, did, received, rfl⟩ := client_cases stepped
  have early : (clientDone s after lines broadcast).broadcasts = 0 →
      (clientDone s after lines broadcast).creator.early = true := by
    have before := negotiates.early
    cases broadcast <;> simp_all [clientDone]
  have uncalled : s.broadcasts = 0 → decide (s.creator = .returned) = false := by
    intro quiet
    have before := negotiates.early quiet
    cases place : s.creator <;> simp_all [Creator.early]
  cases negotiates.phase with
  | starting state version client server thread quiet =>
    rw [uncalled quiet] at did
    obtain ⟨kept, handled, rfl, rfl⟩ := idle_silent client did received
    refine ⟨.starting state version kept (idle_delivered server []) thread quiet, early, ?_, negotiates.server⟩
    rw [Logged]
    exact handled ▸ negotiates.client
  | asked client server thread quiet =>
    rw [uncalled quiet] at did
    rcases idle_step client did with ⟨kept, handled, rfl, rfl⟩ | ⟨_, _, _, handled, rfl, rfl⟩
    · obtain rfl := Option.some.inj (receivedLines_nil.symm.trans received)
      refine ⟨.asked kept (idle_delivered server []) thread quiet, early, ?_, negotiates.server⟩
      rw [Logged]
      exact handled ▸ negotiates.client
    · obtain rfl := Option.some.inj (receivedLines_nil.symm.trans received)
      obtain ⟨runs, logged, incoming, todo⟩ := request_handled negotiates.client client handled
      exact ⟨.answering runs todo incoming (idle_delivered server []) thread quiet, early, logged, negotiates.server⟩
  | answering client todo incoming server thread quiet =>
    rw [uncalled quiet] at did
    obtain ⟨runs, logged, rfl, ⟨same, none, rfl⟩ | ⟨rest, rfl⟩⟩ := answering_step client negotiates.client incoming todo did
    · obtain rfl := Option.some.inj (receivedLines_nil.symm.trans received)
      exact ⟨.answering runs (same.trans todo) none (idle_delivered server []) thread quiet, early, logged, negotiates.server⟩
    · obtain rfl := Option.some.inj ((version_received _).symm.trans received)
      exact ⟨.answered runs (.inl ⟨[], idle_delivered server _⟩) thread (.inl ⟨rest, quiet⟩), early, logged,
        negotiates.server⟩
  | answered client server thread pending =>
    obtain ⟨runs, logged, left⟩ := running_step client negotiates.client did
    refine ⟨.answered runs ?_ thread (pending_step pending left), early, logged, negotiates.server⟩
    rcases server with ⟨rest, idle⟩ | running
    · exact .inl ⟨rest ++ lines, idle_delivered idle lines⟩
    · exact .inr ⟨running.state, running.version⟩

theorem step_negotiates (s : State m n) (a : Label) (t : State m n) (negotiates : Negotiates clientLatest serverLatest s)
    (stepped : step clientLatest serverLatest s a = some t) : Negotiates clientLatest serverLatest t := by
  cases a with
  | connect | lock | wait => exact created_negotiates negotiates (fun _ => rfl) stepped
  | back => exact created_negotiates negotiates (by decide) stepped
  | accept => exact accept_negotiates negotiates stepped
  | negotiate => exact negotiate_negotiates negotiates stepped
  | client a => exact client_negotiates negotiates stepped
  | server a => exact server_negotiates negotiates stepped

end

theorem initial_negotiates (clientLatest serverLatest garbage : Int32) :
    Negotiates clientLatest serverLatest (initial m n clientLatest garbage) := by
  refine ⟨.starting .initializing garbage ?_ ?_ (.inl ⟨rfl, rfl⟩) rfl, fun _ => rfl, nofun, nofun⟩
  · exact ⟨rfl, rfl, rfl, rfl, rfl, rfl, rfl⟩
  · exact ⟨rfl, rfl, rfl, rfl, rfl, rfl, rfl⟩

private theorem idle_agrees {e : End size} {state : ProtocolState} {version agreed : Int32} {inbox : List Text}
    (idle : Idle e state version inbox) (negotiates : state ≠ .running) (logged : Logged e) : Agrees agreed e := by
  refine ⟨fun fault failed => ?_, fun runs => absurd (idle.state.symm.trans runs) negotiates, logged⟩
  rw [idle.failed] at failed
  cases failed

private theorem running_agrees {e : End size} {version : Int32} (running : Running e version) (logged : Logged e) :
    Agrees version e := ⟨fun _ _ => running.state, fun _ => running.version, logged⟩

theorem negotiates_agrees {clientLatest serverLatest : Int32} {s : State m n}
    (negotiates : Negotiates clientLatest serverLatest s) :
    Agrees (min clientLatest serverLatest) s.client ∧ Agrees (min clientLatest serverLatest) s.server := by
  have clientLogged := negotiates.client
  have serverLogged := negotiates.server
  cases negotiates.phase with
  | starting state version client server thread =>
    have negotiating : state ≠ .running := by obtain ⟨_, rfl⟩ | ⟨_, rfl, _⟩ := thread <;> decide
    exact ⟨idle_agrees client (by decide) clientLogged, idle_agrees server negotiating serverLogged⟩
  | asked client server =>
    exact ⟨idle_agrees client (by decide) clientLogged, idle_agrees server (by decide) serverLogged⟩
  | answering client _ _ server =>
    exact ⟨running_agrees client clientLogged, idle_agrees server (by decide) serverLogged⟩
  | answered client server =>
    refine ⟨running_agrees client clientLogged, ?_⟩
    rcases server with ⟨_, idle⟩ | running
    · exact idle_agrees idle (by decide) serverLogged
    · exact running_agrees running serverLogged

/-- The steps of a negotiation in which nothing is late. -/
def handshake : List Label := [.connect, .lock, .wait, .accept, .negotiate, .client .handle, .client .act, .client .act, .back,
  .server .handle]

/-- With any two versions the negotiation can be done. -/
theorem handshake_done (clientLatest serverLatest garbage : Int32) : ∃ s : State m n,
    run (step clientLatest serverLatest) (initial m n clientLatest garbage) handshake = some s ∧
      s.client.connection.protocolState = .running ∧ s.server.connection.protocolState = .running ∧
      s.creator = .returned := by
  have allowed : min clientLatest serverLatest ≤ serverLatest := by
    rw [Std.min_eq_if]
    grind
  simp [handshake, run, step, State.created, initial, End.start, connectionCreate, endStep, End.handleStep,
    request_received, version_received, receivedLines_nil, request_negotiated, version_negotiated allowed]

end VoxiUtil.TextRpcNegotiation
