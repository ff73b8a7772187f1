import VoxiUtil.TextRpcLines

/-!
The callbacks of a server over the life of one connection (`textRPC.c`): what the threads
of the pool run when the protocol was negotiated and when the peer has disconnected. A
thread runs its function as soon as the handler gives it one.
-/
namespace VoxiUtil.TextRpcLifeCycle
open VoxiUtil.CString VoxiUtil.Runs VoxiUtil.TextRpc VoxiUtil.TextRpcLines
variable {size : Nat} [NeZero size]

/-- The callbacks of a `struct sTextRPCServer`: whether they are set. -/
structure TextRPCServer where
  connectionOpenedFunc : Bool
  connectionClosedFunc : Bool
deriving DecidableEq

inductive Callback | opened | closed
deriving DecidableEq

/-- The call `server->func( connection )`; none when a pointer that is followed is null. -/
def callFunc (server : Option TextRPCServer) (func : TextRPCServer → Bool) (callback : Callback) : Option (List Callback) :=
  match server with
  | none => none
  | some server => if func server then some [callback] else none

def callConnectionOpened (server : Option TextRPCServer) : Option (List Callback) :=
  if server.any fun server => server.connectionOpenedFunc then
    callFunc server TextRPCServer.connectionOpenedFunc .opened
  else some []

def callConnectionClosed (server : Option TextRPCServer) : Option (List Callback) :=
  if server.any fun server => !server.connectionClosedFunc then some []
  else callFunc server TextRPCServer.connectionClosedFunc .closed

/-- The threads that the handler of a line starts, as far as they run callbacks. -/
def startThreads (server : Option TextRPCServer) : List Effect → Option (List Callback)
  | [] => some []
  | .runOpened :: effects =>
    (callConnectionOpened server).bind fun callbacks => (startThreads server effects).map fun later => callbacks ++ later
  | _ :: effects => startThreads server effects

/-- How the life of a connection ends: after the disconnect, at a fault of a line or a
    failed assertion, or where a null server or callback is followed. -/
inductive Ending | disconnected | fault | nullPointer
deriving DecidableEq

/-- The lines of a connection and its disconnect, with the callbacks that are run. -/
def lifeCycle (latest : Int32) (server : Option TextRPCServer) (disconnect : Env) (client : Connection size) :
    List (Env × Text) → Ending × List Callback
  | [] =>
    if disconnect.runs then
      match callConnectionClosed server with
      | none => (.nullPointer, [])
      | some callbacks => (.disconnected, callbacks)
    else (.fault, [])
  | (env, line) :: lines =>
    match connectionSockHandler latest env client line with
    | .error _ => (.fault, [])
    | .ok (after, effects) =>
      match startThreads server effects with
      | none => (.nullPointer, [])
      | some callbacks =>
        let (ending, later) := lifeCycle latest server disconnect after lines
        (ending, callbacks ++ later)

/-- The contract of the callbacks. -/
structure Contract (server : Option TextRPCServer) (ending : Ending) (callbacks : List Callback) : Prop where
  opened : callbacks.count .opened ≤ 1
  closed : callbacks.count .closed =
    if ending = .disconnected ∧ (server.any fun server => server.connectionClosedFunc) = true then 1 else 0
  client : server = none → callbacks = []
  pointers : ending ≠ .nullPointer

/-- The disconnect is reached, and its thread is started. -/
def Disconnects (latest : Int32) (disconnect : Env) (client : Connection size) (lines : List (Env × Text)) : Prop :=
  run (lineStep latest) client lines ≠ none ∧ disconnect.runs = true

section
variable {latest : Int32} {server : Option TextRPCServer} {disconnect env : Env} {client after : Connection size}
  {line : Text} {lines : List (Env × Text)} {effects : List Effect}

/-- Its guards are enough for the first callback. -/
theorem opened_spec (server : Option TextRPCServer) : ∃ callbacks, callConnectionOpened server = some callbacks ∧
    callbacks.count .opened ≤ 1 ∧ callbacks.count .closed = 0 ∧ (server = none → callbacks = []) := by
  cases server with
  | none => exact ⟨[], rfl, by simp⟩
  | some server =>
    obtain ⟨opened, closed⟩ := server
    cases opened with
    | false => exact ⟨[], rfl, by simp⟩
    | true => exact ⟨[.opened], rfl, by simp⟩

/-- Only a server can be asked for its second callback. -/
theorem closed_spec (server : TextRPCServer) : callConnectionClosed (some server) =
    some (if server.connectionClosedFunc = true then [.closed] else []) := by
  obtain ⟨opened, closed⟩ := server
  cases closed <;> rfl

/-- The threads that a line starts run the first callback, and no oftener than the line says. -/
theorem startThreads_spec (server : Option TextRPCServer) (effects : List Effect) :
    ∃ callbacks, startThreads server effects = some callbacks ∧ callbacks.count .opened ≤ effects.count .runOpened ∧
      callbacks.count .closed = 0 ∧ (server = none → callbacks = []) := by
  induction effects with
  | nil => exact ⟨[], rfl, by simp⟩
  | cons effect effects ih =>
    obtain ⟨later, started, opened, closed, alone⟩ := ih
    cases effect with
    | runOpened =>
      obtain ⟨callbacks, called, once, never, free⟩ := opened_spec server
      refine ⟨callbacks ++ later, by rw [startThreads, called, started]; rfl, ?_, ?_, ?_⟩
      · rw [List.count_append, List.count_cons_self]
        omega
      · rw [List.count_append, never, closed]
      · intro client
        rw [free client, alone client, List.append_nil]
    | _ => exact ⟨later, started, by simpa using opened, closed, alone⟩

/-- A line of a running connection does not open it again. -/
theorem running_unopened (handled : runningMessage env client line = .ok (after, effects)) :
    after.protocolState = client.protocolState ∧ effects.count .runOpened = 0 := by
  refine ⟨(running_keeps handled).state, ?_⟩
  rw [runningMessage_eq] at handled
  have returned : ∀ isException, handleReturn isException client (fields line) = .ok (after, effects) →
      effects.count .runOpened = 0 := by
    intro isException handled
    rw [handleReturn_eq] at handled
    split at handled
    · cases handled
    · split at handled
      · cases handled
        rfl
      · split at handled <;> cases handled
        rfl
  split at handled
  · split at handled
    · cases handled
    · split at handled <;> cases handled
      rfl
  · split at handled
    · exact returned false handled
    · split at handled
      · exact returned true handled
      · split at handled
        · split at handled <;> cases handled
          rfl
        · cases handled
          rfl

/-- A line while the protocol is negotiated opens the connection when it makes it run. -/
theorem negotiation_opens (handled : negotiationMessage latest env client line = .ok (after, effects)) :
    (after = client ∧ effects.count .runOpened = 0) ∨ (after.protocolState = .running ∧ effects.count .runOpened = 1) := by
  rw [negotiationMessage_eq] at handled
  split at handled
  · split at handled
    · cases handled
    · split at handled <;> cases handled
      exact .inr ⟨rfl, rfl⟩
  · split at handled
    · split at handled
      · cases handled
      · split at handled <;> cases handled
        exact .inr ⟨rfl, rfl⟩
    · cases handled
      exact .inl ⟨rfl, rfl⟩

/-- How often a connection can still be opened. -/
def openings (client : Connection size) : Nat := if client.protocolState = .running then 0 else 1

/-- One line takes its openings from those that are left. -/
theorem line_openings (handled : connectionSockHandler latest env client line = .ok (after, effects)) :
    effects.count .runOpened + openings after ≤ openings client := by
  unfold connectionSockHandler at handled
  cases state : client.protocolState with
  | initializing => simp [state] at handled
  | disconnected => simp [state] at handled
  | running =>
    simp only [state] at handled
    obtain ⟨same, never⟩ := running_unopened handled
    simp [openings, same, never]
  | negotiatingProtocol1 =>
    simp only [state] at handled
    rcases negotiation_opens handled with ⟨rfl, never⟩ | ⟨running, once⟩
    · simp [never]
    · simp [openings, running, once, state]
  | negotiatingProtocol2 =>
    simp only [state] at handled
    rcases negotiation_opens handled with ⟨rfl, never⟩ | ⟨running, once⟩
    · simp [never]
    · simp [openings, running, once, state]

theorem openings_le (client : Connection size) : openings client ≤ 1 := by
  unfold openings
  split <;> omega

/-- What holds of the callbacks at every end of the life of a connection. -/
structure Counted (server : Option TextRPCServer) (openings : Nat) (ending : Ending) (callbacks : List Callback) : Prop where
  opened : callbacks.count .opened ≤ openings
  closed : callbacks.count .closed =
    if ending = .disconnected ∧ (server.any fun server => server.connectionClosedFunc) = true then 1 else 0
  client : server = none → callbacks = []

theorem disconnects_cons (handled : connectionSockHandler latest env client line = .ok (after, effects)) :
    Disconnects latest disconnect client ((env, line) :: lines) ↔ Disconnects latest disconnect after lines := by
  have stepped : lineStep latest client (env, line) = some after := by
    rw [lineStep, handled]
    rfl
  rw [Disconnects, run, stepped, Option.bind_some]
  rfl

/-- By induction on the lines: the callbacks are counted right, and a null pointer is
    followed at the disconnect of a connection without a server. -/
theorem lifeCycle_spec (latest : Int32) (server : Option TextRPCServer) (disconnect : Env) (client : Connection size)
    (lines : List (Env × Text)) :
    Counted server (openings client) (lifeCycle latest server disconnect client lines).1
        (lifeCycle latest server disconnect client lines).2 ∧
      ((lifeCycle latest server disconnect client lines).1 = .nullPointer ↔
        server = none ∧ Disconnects latest disconnect client lines) := by
  induction lines generalizing client with
  | nil =>
    unfold lifeCycle Disconnects
    cases starts : disconnect.runs with
    | false => exact ⟨⟨by simp, by simp, fun _ => rfl⟩, by simp⟩
    | true =>
      cases server with
      | none => exact ⟨⟨by simp [callConnectionClosed, callFunc], by simp [callConnectionClosed, callFunc], fun _ => rfl⟩,
          by simp [callConnectionClosed, callFunc]⟩
      | some server =>
        simp only [closed_spec, if_true]
        refine ⟨⟨?_, ?_, nofun⟩, by simp⟩
        · cases server.connectionClosedFunc <;> simp
        · cases registered : server.connectionClosedFunc <;> simp [registered]
  | cons input lines ih =>
    obtain ⟨env, line⟩ := input
    unfold lifeCycle
    cases handled : connectionSockHandler latest env client line with
    | error fault =>
      have stops : lineStep latest client (env, line) = none := by
        rw [lineStep, handled]
        rfl
      refine ⟨⟨by simp, by simp, fun _ => rfl⟩, ?_⟩
      simp [Disconnects, run, stops]
    | ok out =>
      obtain ⟨after, effects⟩ := out
      obtain ⟨callbacks, started, opened, closed, alone⟩ := startThreads_spec server effects
      obtain ⟨counted, pointer⟩ := ih after
      have left := line_openings handled
      simp only [started]
      refine ⟨⟨?_, ?_, ?_⟩, ?_⟩
      · rw [List.count_append]
        have later := counted.opened
        omega
      · rw [List.count_append, closed, Nat.zero_add]
        exact counted.closed
      · intro client
        rw [alone client, counted.client client, List.append_nil]
      · rw [pointer, disconnects_cons handled]

/-- The callbacks of a connection meet their contract exactly when it has a server, or its
    life ends before the disconnect. -/
theorem callbacks_contract_iff (latest : Int32) (server : Option TextRPCServer) (disconnect : Env) (client : Connection size)
    (lines : List (Env × Text)) :
    Contract server (lifeCycle latest server disconnect client lines).1
        (lifeCycle latest server disconnect client lines).2 ↔
      server ≠ none ∨ ¬ Disconnects latest disconnect client lines := by
  obtain ⟨counted, pointer⟩ := lifeCycle_spec latest server disconnect client lines
  constructor
  · intro contract
    by_contra broken
    rw [not_or, not_not, not_not] at broken
    exact contract.pointers (pointer.mpr broken)
  · intro fine
    refine ⟨Nat.le_trans counted.opened (openings_le client), counted.closed, counted.client, ?_⟩
    intro followed
    obtain ⟨alone, reached⟩ := pointer.mp followed
    rcases fine with served | early
    · exact served alone
    · exact early reached

end

theorem callbacks_contract_iff_client :
    Contract none
        (lifeCycle 0 none ⟨true, true⟩ (connectionCreate 0 true : Connection 16) [(⟨true, true⟩, lit "protocolVersion 0")]).1
        (lifeCycle 0 none ⟨true, true⟩ (connectionCreate 0 true : Connection 16) [(⟨true, true⟩, lit "protocolVersion 0")]).2 ↔
      (none : Option TextRPCServer) ≠ none ∨
        ¬ Disconnects 0 ⟨true, true⟩ (connectionCreate 0 true : Connection 16) [(⟨true, true⟩, lit "protocolVersion 0")] :=
  callbacks_contract_iff 0 none ⟨true, true⟩ (connectionCreate 0 true) [(⟨true, true⟩, lit "protocolVersion 0")]

/-- A client connection that was negotiated and is then disconnected. -/
theorem client_disconnect_breaks :
    lifeCycle 0 none ⟨true, true⟩ (connectionCreate 0 true : Connection 16)
        [(⟨true, true⟩, lit "protocolVersion-request 0")] = (.nullPointer, []) ∧
      ¬ Contract none (lifeCycle 0 none ⟨true, true⟩ (connectionCreate 0 true : Connection 16)
          [(⟨true, true⟩, lit "protocolVersion-request 0")]).1
        (lifeCycle 0 none ⟨true, true⟩ (connectionCreate 0 true : Connection 16)
          [(⟨true, true⟩, lit "protocolVersion-request 0")]).2 := by
  have followed : lifeCycle 0 none ⟨true, true⟩ (connectionCreate 0 true : Connection 16)
      [(⟨true, true⟩, lit "protocolVersion-request 0")] = (.nullPointer, []) := rfl
  refine ⟨followed, ?_⟩
  rw [followed]
  exact fun contract => contract.pointers rfl

end VoxiUtil.TextRpcLifeCycle
