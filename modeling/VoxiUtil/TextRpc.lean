import VoxiUtil.CString
import VoxiUtil.Err
import VoxiUtil.Hash
import VoxiUtil.Strbuf

/-!
The connections of `textRPC.c`: the messages that a call and its answer are
written as, and the handler of the lines that a peer sends. The handler changes
the connection and then acts on the outside; a fault is a failed assertion or
the use of a pointer that is null.
-/
namespace VoxiUtil.TextRpc
open VoxiUtil.CString VoxiUtil.Hash VoxiUtil.Strbuf
open VoxiUtil.Err (errBuffSize)

inductive ProtocolState where
  | initializing
  | negotiatingProtocol1
  | negotiatingProtocol2
  | running
  | disconnected
deriving DecidableEq

/-- A pointer to a `struct sOutstandingCall`: the block of the call and its `id`,
    which does not change. -/
structure OutstandingCall where
  id : Int32
  address : Nat
deriving DecidableEq

def hashFunction (call : OutstandingCall) : Int32 := call.id

/-- The difference of two `int`s, which wraps around. -/
def compFunction (call1 call2 : OutstandingCall) : Int32 := call2.id - call1.id

/-- The functions of a table of outstanding calls: 31 buckets at a server and 16 at a client. -/
def callFuncs (size : Nat) [NeZero size] : Funcs OutstandingCall :=
  ⟨size, Nat.pos_of_ne_zero (NeZero.ne size), hashFunction, compFunction, false⟩

/-- What the fields `result` and `error` of an outstanding call are set to: an
    `Error` with its description, or no error and the result. -/
inductive Answer where
  | result (text : Option Text)
  | error (description : Text)
deriving DecidableEq

/-- `struct sTextRPCConnection`. `answers` has the answer of each outstanding call by
    its block; of `tcpConnection` it matters whether it is null. -/
structure Connection (size : Nat) [NeZero size] where
  protocolState : ProtocolState
  protocolVersion : Int32
  outstandingCalls : Hasht (callFuncs size)
  answers : Nat → Option Answer
  tcpConnection : Bool

inductive Fault where
  | assertion
  | nullString
  | badFormat
  | nullSocket
deriving DecidableEq

/-- What the handler does besides changing the connection, in its order: a line
    sent, the broadcast of `initFinishedCondition`, a pool thread that runs
    `callConnectionOpened` or `call_threadFunc`, an answer stored in a call with
    the broadcast of its `finishedCondition`, and an error reported. -/
inductive Effect where
  | send (line : Text)
  | broadcastInit
  | runOpened
  | runCall (input : Text)
  | finish (call : OutstandingCall) (answer : Answer)
  | report
deriving DecidableEq

/-- Whether `sock_send` and `threadPool_runThread` succeed. -/
structure Env where
  sends : Bool
  runs : Bool

/-- `assert`. -/
def check (condition : Bool) : Except Fault Unit := if condition then .ok () else .error .assertion

/-- A string argument that must not be null. -/
def nonNull (string : Option Text) : Except Fault Text :=
  match string with
  | none => .error .nullString
  | some text => .ok text

/-- A token that is asserted not to be null. -/
def assertToken (token : Option Text) : Except Fault Text :=
  match token with
  | none => .error .assertion
  | some text => .ok text

variable {size : Nat} [NeZero size]

/-- A new connection of a server or a client. -/
def connectionCreate (protocolVersion : Int32) (tcpConnection : Bool) : Connection size :=
  ⟨.negotiatingProtocol1, protocolVersion, hashCreateTable _, fun _ => none, tcpConnection⟩

/-- The first half of `handleReturn`: the outstanding call that the message names,
    and the message behind the id. -/
def findCall (outstandingCalls : Hasht (callFuncs size)) (message : Option Text) :
    Except Fault (Option OutstandingCall × Option Text) := do
  let (charPtr, message) := strsep message (lit " \t")
  let id ← nonNull charPtr
  return (hashFind outstandingCalls ⟨atoi id, 0⟩, message)

/-- What `handleReturn` stores in the call. The message of an exception is the
    format of `ErrNew`. -/
def makeAnswer (isException : Bool) (message : Option Text) : Except Fault Answer :=
  if isException then
    match message.bind (vsnprintfBare errBuffSize) with
    | none => .error .badFormat
    | some description => .ok (.error description)
  else .ok (.result message)

/-- The connection with an answer stored in an outstanding call. -/
def storeAnswer (client : Connection size) (call : OutstandingCall) (answer : Answer) : Connection size :=
  { client with answers := Function.update client.answers call.address (some answer) }

/-- The mutex of the call, which is locked around the answer and its broadcast, is left out: a reply that waits for the thread
    of the call fails no assertion. -/
def handleReturn (isException : Bool) (client : Connection size) (message : Option Text) :
    Except Fault (Connection size × List Effect) := do
  let (outstandingCall, message) ← findCall client.outstandingCalls message
  match outstandingCall with
  | none => return (client, [.report])
  | some call =>
    let answer ← makeAnswer isException message
    return (storeAnswer client call answer, [.finish call answer])

/-- What `negotiate_protocol` sends. -/
def requestLine (latest : Int32) : Text := lit "protocolVersion-request " ++ printInt latest ++ lit "\n"

/-- The answer to a version request. -/
def versionLine (version : Int32) : Text := lit "protocolVersion " ++ printInt version ++ lit "\n"

/-- A message while the protocol is negotiated. `latest` is `LATEST_PROTOCOL_VERSION`. -/
def negotiationMessage (latest : Int32) (env : Env) (client : Connection size) (message : Text) :
    Except Fault (Connection size × List Effect) := do
  let (charPtr, message) := strsep (some message) (lit " ")
  let charPtr ← assertToken charPtr
  if strcaseEq charPtr (lit "protocolVersion-request") then
    let (charPtr, _) := strsep message (lit " ")
    let remoteVersion := atoi (← assertToken charPtr)
    let version := if latest < remoteVersion then latest else remoteVersion
    check env.sends
    check env.runs
    return ({ client with protocolVersion := version, protocolState := .running },
      [.send (versionLine version), .broadcastInit, .runOpened])
  else if strcaseEq charPtr (lit "protocolVersion") then
    let (charPtr, _) := strsep message (lit " ")
    let version := atoi (← assertToken charPtr)
    check (client.protocolVersion == -1)
    check (version ≤ latest)
    check env.runs
    return ({ client with protocolVersion := version, protocolState := .running }, [.broadcastInit, .runOpened])
  else return (client, [])

/-- A message while the connection runs. The pings are answered on `tcpConnection`. -/
def runningMessage (env : Env) (client : Connection size) (message : Text) :
    Except Fault (Connection size × List Effect) := do
  let (charPtr, message) := strsep (some message) (lit " ")
  let charPtr ← assertToken charPtr
  if strcaseEq charPtr (lit "C") then
    let input ← nonNull message
    check env.runs
    return (client, [.runCall input])
  else if strcaseEq charPtr (lit "R") then handleReturn false client message
  else if strcaseEq charPtr (lit "E") then handleReturn true client message
  else if strcaseEq charPtr (lit "ping") then
    if client.tcpConnection then return (client, [.send (lit "ping-reply \n")]) else throw .nullSocket
  else return (client, [])

/-- The handler of a received line, by the state of the protocol. -/
def connectionSockHandler (latest : Int32) (env : Env) (client : Connection size) (message : Text) :
    Except Fault (Connection size × List Effect) :=
  match client.protocolState with
  | .initializing => .error .assertion
  | .negotiatingProtocol1 | .negotiatingProtocol2 => negotiationMessage latest env client message
  | .running => runningMessage env client message
  | .disconnected => .error .assertion

/-- The line of a request, as `textRPC_call` writes it into its buffer; none when
    the buffer of 10000 bytes overflows. -/
def callText (callId : Int32) (text : Text) : Option Text :=
  let buffer := lit "C " ++ printInt callId ++ lit " " ++ text ++ lit "\n"
  if buffer.length < 10000 then some buffer else none

/-- What the application's dispatch function gives: a result, which may be null, or
    an `Error` with the text that `ErrToString` makes of it. -/
inductive Dispatched where
  | result (text : Option Text)
  | error (text : Text)

/-- The line of an answer, from a string buffer of 256 bytes; none when the buffer
    overflows. -/
def answerText (callId : Int32) : Dispatched → Option Text
  | .result none =>
    (strbufSprintf (strbufCreate 256) [.char (byte 'R'), .char (byte ' '), .text (printInt callId), .char (byte '\n')]).map
      StringBuffer.string
  | .result (some result) =>
    (strbufSprintf (strbufCreate 256) [.char (byte 'R'), .char (byte ' '), .text (printInt callId), .char (byte ' '),
      .text result, .char (byte '\n')]).map StringBuffer.string
  | .error text => some (lit "E " ++ printInt callId ++ lit " " ++ text ++ lit "\n")

/-- The call that the thread of an incoming call makes of its input: the id, and
    the text for the dispatch function, null when there is none. -/
def incomingCall (input : Text) : Except Fault (Int32 × Option Text) := do
  let (charPtr, message) := strsep (some input) (lit " ")
  let id ← assertToken charPtr
  return (atoi id, message)

/-- The thread of an incoming call: what the dispatch function is called with, and
    the line that is sent. -/
def callThreadFunc (dispatchFunc : Option Text → Dispatched) (input : Text) :
    Except Fault (Option Text × Option Text) := do
  let (callId, message) ← incomingCall input
  return (message, answerText callId (dispatchFunc message))

/-- The thread of an incoming call fails no assertion. -/
theorem incomingCall_ok (input : Text) : ∃ call, incomingCall input = .ok call := by
  obtain ⟨token, rest, split⟩ := strsep_some input (lit " ")
  exact ⟨(atoi token, rest), by simp [incomingCall, split, assertToken, pure, Except.pure, bind, Except.bind]⟩

end VoxiUtil.TextRpc
