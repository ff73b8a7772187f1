import VoxiUtil.Runs
import VoxiUtil.TextRpc

/-!
What the lines of a peer can do to the handler of `textRPC.c`. A line breaks it
by a fault, or by an effect of a line that has none of the forms of a message.
-/
namespace VoxiUtil.TextRpcLines
open VoxiUtil.CString VoxiUtil.Hash VoxiUtil.TextRpc VoxiUtil.Runs
variable {size : Nat} [NeZero size]

/-- A field that is a number: digits, and maybe a sign. -/
def isNumber (field : Text) : Bool :=
  match field with
  | 45 :: digits => !digits.isEmpty && digits.all isDigit
  | digits => !digits.isEmpty && digits.all isDigit

/-- The word that a line starts with. -/
def keyword (line : Text) : Text := (strsep (some line) (lit " ")).1.getD []

/-- The line behind that word. -/
def fields (line : Text) : Option Text := (strsep (some line) (lit " ")).2

/-- The first of the fields, and what is behind it. -/
def firstField (line : Text) (delim : Text) : Option Text := (strsep (fields line) delim).1
def behindField (line : Text) (delim : Text) : Option Text := (strsep (fields line) delim).2

/-- The forms of a message in each state: `protocolVersion-request n` and
    `protocolVersion n` before the connection runs, and then `C n text`, `R n`,
    `R n text`, `E n text` and `ping`. -/
def wellFormed (state : ProtocolState) (line : Text) : Bool :=
  match state with
  | .running =>
    if strcaseEq (keyword line) (lit "C") then
      (firstField line (lit " ")).any isNumber && (behindField line (lit " ")).isSome
    else if strcaseEq (keyword line) (lit "R") then (firstField line (lit " \t")).any isNumber
    else if strcaseEq (keyword line) (lit "E") then
      (firstField line (lit " \t")).any isNumber && (behindField line (lit " \t")).isSome
    else strcaseEq (keyword line) (lit "ping")
  | _ =>
    (strcaseEq (keyword line) (lit "protocolVersion-request") || strcaseEq (keyword line) (lit "protocolVersion")) &&
      (firstField line (lit " ")).any isNumber

/-- A line does not break the handler: it is handled without a fault, also by the
    thread of a call, and a malformed line changes nothing and is at most reported. -/
def Unbroken (latest : Int32) (client : Connection size) (input : Env × Text) : Prop :=
  ∃ after effects, connectionSockHandler latest input.1 client input.2 = .ok (after, effects) ∧
    (∀ call, .runCall call ∈ effects → ∃ parsed, incomingCall call = .ok parsed) ∧
    (wellFormed client.protocolState input.2 = false → after = client ∧ ∀ effect ∈ effects, effect = .report)

/-- The call with an id is outstanding. -/
def isOutstanding (client : Connection size) (id : Int32) : Bool := (hashFind client.outstandingCalls ⟨id, 0⟩).isSome

/-- The lines that the handler copes with. -/
def Acceptable (latest : Int32) (client : Connection size) (input : Env × Text) : Prop :=
  match client.protocolState with
  | .running =>
    if strcaseEq (keyword input.2) (lit "C") then wellFormed .running input.2 = true ∧ input.1.runs = true
    else if strcaseEq (keyword input.2) (lit "R") then
      ∃ id, firstField input.2 (lit " \t") = some id ∧
        (isOutstanding client (atoi id) = true → isNumber id = true)
    else if strcaseEq (keyword input.2) (lit "E") then
      ∃ id, firstField input.2 (lit " \t") = some id ∧
        (isOutstanding client (atoi id) = true → isNumber id = true ∧
          ∃ text, behindField input.2 (lit " \t") = some text ∧ (expandFormat text).isSome = true)
    else if strcaseEq (keyword input.2) (lit "ping") then client.tcpConnection = true
    else True
  | _ =>
    if strcaseEq (keyword input.2) (lit "protocolVersion-request") then
      (∃ version, firstField input.2 (lit " ") = some version ∧ isNumber version = true) ∧
        input.1.sends = true ∧ input.1.runs = true
    else if strcaseEq (keyword input.2) (lit "protocolVersion") then
      (∃ version, firstField input.2 (lit " ") = some version ∧ isNumber version = true ∧ atoi version ≤ latest) ∧
        client.protocolVersion = -1 ∧ input.1.runs = true
    else True

/-- The states in which lines are received. -/
def Receiving (client : Connection size) : Prop :=
  client.protocolState = .negotiatingProtocol1 ∨ client.protocolState = .negotiatingProtocol2 ∨
    client.protocolState = .running

/-- The connection after a line that is handled. -/
def lineStep (latest : Int32) (client : Connection size) (input : Env × Text) : Option (Connection size) :=
  (connectionSockHandler latest input.1 client input.2).toOption.map Prod.fst

private theorem keyword_strsep (line : Text) : strsep (some line) (lit " ") = (some (keyword line), fields line) := by
  obtain ⟨token, rest, split⟩ := strsep_some line (lit " ")
  simp [keyword, fields, split]

/-- A line of a word and what follows it. -/
theorem word_line {word : Text} (solid : byte ' ' ∉ word) (rest : Text) :
    keyword (word ++ byte ' ' :: rest) = word ∧ fields (word ++ byte ' ' :: rest) = some rest := by
  have blank : lit " " = [byte ' '] := by decide
  have free : ∀ b ∈ word, b ∉ lit " " := by
    intro b member
    rw [blank, List.mem_singleton]
    rintro rfl
    exact solid member
  simp [keyword, fields, strsep_found free (show byte ' ' ∈ lit " " by decide)]

theorem negotiationMessage_eq (latest : Int32) (env : Env) (client : Connection size) (line : Text) :
    negotiationMessage latest env client line =
      if strcaseEq (keyword line) (lit "protocolVersion-request") then
        match firstField line (lit " ") with
        | none => .error .assertion
        | some version =>
          if env.sends = true ∧ env.runs = true then
            let version := if latest < atoi version then latest else atoi version
            .ok ({ client with protocolVersion := version, protocolState := .running },
              [.send (versionLine version), .broadcastInit, .runOpened])
          else .error .assertion
      else if strcaseEq (keyword line) (lit "protocolVersion") then
        match firstField line (lit " ") with
        | none => .error .assertion
        | some version =>
          if client.protocolVersion = -1 ∧ atoi version ≤ latest ∧ env.runs = true then
            .ok ({ client with protocolVersion := atoi version, protocolState := .running }, [.broadcastInit, .runOpened])
          else .error .assertion
      else .ok (client, []) := by
  rcases second : strsep (fields line) (lit " ") with ⟨_ | version, behind⟩ <;>
    simp only [negotiationMessage, keyword_strsep, firstField, second, assertToken, check, bind, Except.bind, pure,
      Except.pure]
  split
  · cases env.sends <;> cases env.runs <;> rfl
  · split
    · by_cases fresh : client.protocolVersion = -1 <;> by_cases fits : atoi version ≤ latest <;>
        cases env.runs <;> simp [fresh, fits]
    · rfl

theorem handleReturn_eq (isException : Bool) (client : Connection size) (message : Option Text) :
    handleReturn isException client message =
      match (strsep message (lit " \t")).1 with
      | none => .error .nullString
      | some id =>
        match hashFind client.outstandingCalls ⟨atoi id, 0⟩ with
        | none => .ok (client, [.report])
        | some call =>
          match makeAnswer isException (strsep message (lit " \t")).2 with
          | .error fault => .error fault
          | .ok answer => .ok (storeAnswer client call answer, [.finish call answer]) := by
  rcases split : strsep message (lit " \t") with ⟨_ | id, behind⟩
  · simp [handleReturn, findCall, split, nonNull, bind, Except.bind]
  · simp only [handleReturn, findCall, split, nonNull, bind, Except.bind, pure, Except.pure]
    cases hashFind client.outstandingCalls ⟨atoi id, 0⟩ with
    | none => rfl
    | some call => cases makeAnswer isException behind <;> rfl

theorem runningMessage_eq (env : Env) (client : Connection size) (line : Text) :
    runningMessage env client line =
      if strcaseEq (keyword line) (lit "C") then
        match fields line with
        | none => .error .nullString
        | some input => if env.runs = true then .ok (client, [.runCall input]) else .error .assertion
      else if strcaseEq (keyword line) (lit "R") then handleReturn false client (fields line)
      else if strcaseEq (keyword line) (lit "E") then handleReturn true client (fields line)
      else if strcaseEq (keyword line) (lit "ping") then
        if client.tcpConnection = true then .ok (client, [.send (lit "ping-reply \n")]) else .error .nullSocket
      else .ok (client, []) := by
  simp only [runningMessage, keyword_strsep, assertToken, check, bind, Except.bind, pure, Except.pure, throw, throwThe,
    MonadExceptOf.throw]
  split
  · cases fields line with
    | none => rfl
    | some input => cases env.runs <;> rfl
  · rfl

private theorem negotiation_state {latest : Int32} {env : Env} {client after : Connection size} {line : Text}
    {effects : List Effect} (handled : negotiationMessage latest env client line = .ok (after, effects)) :
    after = client ∨ after.protocolState = .running := by
  rw [negotiationMessage_eq] at handled
  split at handled
  · split at handled
    · cases handled
    · split at handled <;> cases handled
      exact .inr rfl
  · split at handled
    · split at handled
      · cases handled
      · split at handled <;> cases handled
        exact .inr rfl
    · cases handled; exact .inl rfl

/-- What a running connection does not do for a line. -/
structure KeepsRunning (client after : Connection size) (effects : List Effect) : Prop where
  state : after.protocolState = client.protocolState
  version : after.protocolVersion = client.protocolVersion
  silent : .broadcastInit ∉ effects

private theorem handleReturn_keeps {isException : Bool} {client after : Connection size} {message : Option Text}
    {effects : List Effect} (handled : handleReturn isException client message = .ok (after, effects)) :
    KeepsRunning client after effects := by
  rw [handleReturn_eq] at handled
  split at handled
  · cases handled
  · split at handled
    · cases handled; exact ⟨rfl, rfl, by simp⟩
    · split at handled <;> cases handled
      exact ⟨rfl, rfl, by simp⟩

theorem running_keeps {env : Env} {client after : Connection size} {line : Text} {effects : List Effect}
    (handled : runningMessage env client line = .ok (after, effects)) : KeepsRunning client after effects := by
  rw [runningMessage_eq] at handled
  split at handled
  · split at handled
    · cases handled
    · split at handled <;> cases handled
      exact ⟨rfl, rfl, by simp⟩
  · split at handled
    · exact handleReturn_keeps handled
    · split at handled
      · exact handleReturn_keeps handled
      · split at handled
        · split at handled <;> cases handled
          exact ⟨rfl, rfl, by simp⟩
        · cases handled; exact ⟨rfl, rfl, by simp⟩

/-- A line that is handled leaves the connection in a state for the next one. -/
theorem receiving_step {latest : Int32} {client after : Connection size} {input : Env × Text}
    (receiving : Receiving client) (stepped : lineStep latest client input = some after) : Receiving after := by
  unfold lineStep at stepped
  cases handled : connectionSockHandler latest input.1 client input.2 with
  | error fault => rw [handled] at stepped; cases stepped
  | ok out =>
    rw [handled] at stepped
    cases stepped
    rcases receiving with state | state | state <;> simp only [connectionSockHandler, state] at handled
    · rcases negotiation_state handled with same | running
      · exact same ▸ .inl state
      · exact .inr (.inr running)
    · rcases negotiation_state handled with same | running
      · exact same ▸ .inr (.inl state)
      · exact .inr (.inr running)
    · exact .inr (.inr ((running_keeps handled).state.trans state))

private theorem broken_error {latest : Int32} {client : Connection size} {input : Env × Text} {fault : Fault}
    (failed : connectionSockHandler latest input.1 client input.2 = .error fault) : ¬ Unbroken latest client input := by
  rintro ⟨after, effects, handled, _⟩
  rw [failed] at handled
  cases handled

private theorem unbroken_ok {latest : Int32} {client after : Connection size} {input : Env × Text} {effects : List Effect}
    (handled : connectionSockHandler latest input.1 client input.2 = .ok (after, effects)) :
    Unbroken latest client input ↔
      (wellFormed client.protocolState input.2 = false → after = client ∧ ∀ effect ∈ effects, effect = .report) := by
  constructor
  · rintro ⟨_, _, again, _, quiet⟩
    rw [handled] at again
    cases again
    exact quiet
  · exact fun quiet => ⟨after, effects, handled, fun call _ => incomingCall_ok call, quiet⟩

/-- A line that makes the connection run must be well-formed. -/
private theorem accepting_iff {latest : Int32} {client after : Connection size} {input : Env × Text}
    {effects : List Effect} (idle : client.protocolState ≠ .running) (running : after.protocolState = .running)
    (handled : connectionSockHandler latest input.1 client input.2 = .ok (after, effects)) :
    Unbroken latest client input ↔ wellFormed client.protocolState input.2 = true := by
  rw [unbroken_ok handled]
  constructor
  · intro quiet
    by_contra malformed
    exact idle ((quiet (by simpa using malformed)).1 ▸ running)
  · intro formed malformed
    rw [formed] at malformed
    cases malformed

private theorem wellFormed_idle {state : ProtocolState} (idle : state ≠ .running) (line : Text) :
    wellFormed state line =
      ((strcaseEq (keyword line) (lit "protocolVersion-request") || strcaseEq (keyword line) (lit "protocolVersion")) &&
        (firstField line (lit " ")).any isNumber) := by
  cases state with
  | running => exact absurd rfl idle
  | _ => rfl

private theorem acceptable_idle {latest : Int32} {client : Connection size} {input : Env × Text}
    (idle : client.protocolState ≠ .running) : Acceptable latest client input ↔
      if strcaseEq (keyword input.2) (lit "protocolVersion-request") then
        (∃ version, firstField input.2 (lit " ") = some version ∧ isNumber version = true) ∧
          input.1.sends = true ∧ input.1.runs = true
      else if strcaseEq (keyword input.2) (lit "protocolVersion") then
        (∃ version, firstField input.2 (lit " ") = some version ∧ isNumber version = true ∧ atoi version ≤ latest) ∧
          client.protocolVersion = -1 ∧ input.1.runs = true
      else True := by
  unfold Acceptable
  cases state : client.protocolState with
  | running => exact absurd state idle
  | _ => rfl

/-- A request must have a version that is a number, and the answer must go out. -/
private theorem requesting_iff {latest : Int32} {client : Connection size} {input : Env × Text}
    (idle : client.protocolState ≠ .running)
    (handler : connectionSockHandler latest input.1 client input.2 = negotiationMessage latest input.1 client input.2)
    (request : strcaseEq (keyword input.2) (lit "protocolVersion-request") = true) :
    Unbroken latest client input ↔
      (∃ version, firstField input.2 (lit " ") = some version ∧ isNumber version = true) ∧
        input.1.sends = true ∧ input.1.runs = true := by
  rw [negotiationMessage_eq, if_pos request] at handler
  cases field : firstField input.2 (lit " ") with
  | none =>
    rw [field] at handler
    simp only [broken_error handler, reduceCtorEq, false_and, exists_false]
  | some version =>
    rw [field] at handler
    by_cases works : input.1.sends = true ∧ input.1.runs = true
    · simp only [works, and_self, if_true] at handler
      rw [accepting_iff idle rfl handler, wellFormed_idle idle]
      simp only [request, field, works, Bool.true_or, Bool.true_and, Option.any_some, Option.some.injEq,
        exists_eq_left', and_self, and_true]
    · simp only [works, if_false] at handler
      simp only [broken_error handler, works, and_false]

/-- A version must be one that the client has, and has not got before. -/
private theorem answering_iff {latest : Int32} {client : Connection size} {input : Env × Text}
    (idle : client.protocolState ≠ .running)
    (handler : connectionSockHandler latest input.1 client input.2 = negotiationMessage latest input.1 client input.2)
    (request : strcaseEq (keyword input.2) (lit "protocolVersion-request") ≠ true)
    (answer : strcaseEq (keyword input.2) (lit "protocolVersion") = true) :
    Unbroken latest client input ↔
      (∃ version, firstField input.2 (lit " ") = some version ∧ isNumber version = true ∧ atoi version ≤ latest) ∧
        client.protocolVersion = -1 ∧ input.1.runs = true := by
  rw [negotiationMessage_eq, if_neg request, if_pos answer] at handler
  cases field : firstField input.2 (lit " ") with
  | none =>
    rw [field] at handler
    simp only [broken_error handler, reduceCtorEq, false_and, exists_false]
  | some version =>
    rw [field] at handler
    by_cases works : client.protocolVersion = -1 ∧ atoi version ≤ latest ∧ input.1.runs = true
    · simp only [works, and_self, if_true] at handler
      rw [accepting_iff idle rfl handler, wellFormed_idle idle]
      simp only [answer, field, works, Bool.or_true, Bool.true_and, Option.any_some, Option.some.injEq,
        exists_eq_left', and_self, and_true]
    · simp only [works, if_false] at handler
      simp only [broken_error handler, Option.some.injEq, exists_eq_left', false_iff]
      rintro ⟨⟨_, fits⟩, fresh, runs⟩
      exact works ⟨fresh, fits, runs⟩

private theorem negotiation_iff {latest : Int32} {client : Connection size} {input : Env × Text}
    (state : client.protocolState = .negotiatingProtocol1 ∨ client.protocolState = .negotiatingProtocol2) :
    Unbroken latest client input ↔ Acceptable latest client input := by
  have handler : connectionSockHandler latest input.1 client input.2 =
      negotiationMessage latest input.1 client input.2 := by
    rcases state with state | state <;> simp only [connectionSockHandler, state]
  have idle : client.protocolState ≠ .running := by rcases state with state | state <;> simp [state]
  rw [acceptable_idle idle]
  by_cases request : strcaseEq (keyword input.2) (lit "protocolVersion-request") = true
  · rw [if_pos request]
    exact requesting_iff idle handler request
  · rw [if_neg request]
    by_cases answer : strcaseEq (keyword input.2) (lit "protocolVersion") = true
    · rw [if_pos answer]
      exact answering_iff idle handler request answer
    · rw [negotiationMessage_eq, if_neg request, if_neg answer] at handler
      rw [if_neg answer, unbroken_ok handler]
      simp only [List.not_mem_nil, false_imp_iff, implies_true, and_self]

/-- A line with an effect besides a report must be well-formed. -/
private theorem acting_iff {latest : Int32} {client after : Connection size} {input : Env × Text} {effect : Effect}
    (acts : effect ≠ .report)
    (handled : connectionSockHandler latest input.1 client input.2 = .ok (after, [effect])) :
    Unbroken latest client input ↔ wellFormed client.protocolState input.2 = true := by
  rw [unbroken_ok handled]
  constructor
  · intro quiet
    by_contra malformed
    exact acts ((quiet (by simpa using malformed)).2 effect (by simp))
  · intro formed malformed
    rw [formed] at malformed
    cases malformed

private theorem quiet_ok {latest : Int32} {client : Connection size} {input : Env × Text} {effects : List Effect}
    (quiet : ∀ effect ∈ effects, effect = .report)
    (handled : connectionSockHandler latest input.1 client input.2 = .ok (client, effects)) :
    Unbroken latest client input := (unbroken_ok handled).mpr (fun _ => ⟨rfl, quiet⟩)

/-- The message of a return must have an id, and when its call is outstanding it
    must have the form of its kind. -/
private theorem return_iff {latest : Int32} {client : Connection size} {input : Env × Text} {isException : Bool}
    (handler : connectionSockHandler latest input.1 client input.2 =
      handleReturn isException client (fields input.2)) :
    Unbroken latest client input ↔ ∃ id, firstField input.2 (lit " \t") = some id ∧
      (isOutstanding client (atoi id) = true → wellFormed client.protocolState input.2 = true ∧
        ∃ answer, makeAnswer isException (behindField input.2 (lit " \t")) = .ok answer) := by
  rw [handleReturn_eq] at handler
  change _ = (match firstField input.2 (lit " \t") with | none => _ | some id => _) at handler
  cases field : firstField input.2 (lit " \t") with
  | none =>
    rw [field] at handler
    simp only [broken_error handler, reduceCtorEq, false_and, exists_false]
  | some id =>
    rw [field] at handler
    simp only [Option.some.injEq, exists_eq_left', isOutstanding]
    cases found : hashFind client.outstandingCalls ⟨atoi id, 0⟩ with
    | none =>
      simp only [found] at handler
      simp only [Option.isSome_none, Bool.false_eq_true, false_imp_iff, iff_true]
      exact quiet_ok (by simp) handler
    | some call =>
      simp only [found] at handler
      change _ = (match makeAnswer isException (behindField input.2 (lit " \t")) with | .error _ => _ | .ok _ => _) at handler
      simp only [Option.isSome_some, true_imp_iff]
      cases made : makeAnswer isException (behindField input.2 (lit " \t")) with
      | error fault =>
        simp only [made] at handler
        simp only [broken_error handler, reduceCtorEq, exists_false, and_false]
      | ok answer =>
        simp only [made] at handler
        rw [acting_iff (by simp) handler]
        simp only [Except.ok.injEq, exists_eq', and_true]

private theorem makeAnswer_error (message : Option Text) :
    (∃ answer, makeAnswer true message = .ok answer) ↔ ∃ text, message = some text ∧ (expandFormat text).isSome = true := by
  cases message with
  | none => simp [makeAnswer]
  | some text => cases expanded : expandFormat text <;> simp [makeAnswer, vsnprintfBare, expanded]

section
variable {latest : Int32} {client : Connection size} {input : Env × Text}

/-- A call must have its id and a text, and a thread. -/
private theorem calling_iff (state : client.protocolState = .running)
    (handler : connectionSockHandler latest input.1 client input.2 = runningMessage input.1 client input.2)
    (call : strcaseEq (keyword input.2) (lit "C") = true) :
    Unbroken latest client input ↔ wellFormed .running input.2 = true ∧ input.1.runs = true := by
  rw [runningMessage_eq, if_pos call] at handler
  cases rest : fields input.2 with
  | none =>
    rw [rest] at handler
    have malformed : wellFormed .running input.2 = false := by simp [wellFormed, call, firstField, rest]
    simp only [broken_error handler, malformed, Bool.false_eq_true, false_and]
  | some message =>
    rw [rest] at handler
    cases runs : input.1.runs with
    | false =>
      simp only [runs, Bool.false_eq_true, if_false] at handler
      simp only [broken_error handler, Bool.false_eq_true, and_false]
    | true =>
      simp only [runs, if_true] at handler
      rw [acting_iff (by simp) handler, state]
      simp only [and_true]

/-- A ping is answered on a socket only. -/
private theorem pinging_iff {after : Connection size} {effect : Effect} {fault : Fault} (acts : effect ≠ .report)
    (formed : wellFormed client.protocolState input.2 = true)
    (handler : connectionSockHandler latest input.1 client input.2 =
      if client.tcpConnection = true then .ok (after, [effect]) else .error fault) :
    Unbroken latest client input ↔ client.tcpConnection = true := by
  by_cases socket : client.tcpConnection = true
  · rw [if_pos socket] at handler
    rw [acting_iff acts handler]
    simp only [formed, socket]
  · rw [if_neg socket] at handler
    exact iff_of_false (broken_error handler) socket

private theorem running_iff (state : client.protocolState = .running) :
    Unbroken latest client input ↔ Acceptable latest client input := by
  have handler : connectionSockHandler latest input.1 client input.2 = runningMessage input.1 client input.2 := by
    simp only [connectionSockHandler, state]
  simp only [Acceptable, state]
  by_cases call : strcaseEq (keyword input.2) (lit "C") = true
  · rw [if_pos call]
    exact calling_iff state handler call
  rw [runningMessage_eq, if_neg call] at handler
  rw [if_neg call]
  by_cases result : strcaseEq (keyword input.2) (lit "R") = true
  · rw [if_pos result] at handler ⊢
    rw [return_iff handler]
    refine exists_congr fun id => and_congr_right fun field => imp_congr_right fun _ => ?_
    simp [wellFormed, state, call, result, field, makeAnswer]
  rw [if_neg result] at handler ⊢
  by_cases exception : strcaseEq (keyword input.2) (lit "E") = true
  · rw [if_pos exception] at handler ⊢
    rw [return_iff handler]
    refine exists_congr fun id => and_congr_right fun field => imp_congr_right fun _ => ?_
    rw [makeAnswer_error]
    simp only [wellFormed, state, call, result, exception, field, Bool.false_eq_true, if_false, if_true,
      Option.any_some, Bool.and_eq_true]
    constructor
    · rintro ⟨⟨number, _⟩, text⟩
      exact ⟨number, text⟩
    · rintro ⟨number, text, behind, format⟩
      exact ⟨⟨number, by rw [behind]; rfl⟩, text, behind, format⟩
  rw [if_neg exception] at handler ⊢
  by_cases ping : strcaseEq (keyword input.2) (lit "ping") = true
  · rw [if_pos ping] at handler ⊢
    have formed : wellFormed client.protocolState input.2 = true := by
      simp only [state, wellFormed, call, result, exception, ping, Bool.false_eq_true, if_false]
    exact pinging_iff (by simp) formed handler
  · rw [if_neg ping] at handler ⊢
    simp only [iff_true]
    exact quiet_ok (by simp) handler

end

/-- The handler copes with just the acceptable lines, and so with just the sequences
    in which every line is acceptable when it comes. -/
theorem lines_unbroken_iff (latest : Int32) (client : Connection size) (receiving : Receiving client)
    (inputs : List (Env × Text)) :
    Guarded (lineStep latest) (Unbroken latest) client inputs ↔
      Guarded (lineStep latest) (Acceptable latest) client inputs := by
  refine guarded_congr Receiving (fun _ _ _ inv stepped => receiving_step inv stepped) (fun m input inv => ?_) receiving
  rcases inv with state | state | state
  · exact negotiation_iff (.inl state)
  · exact negotiation_iff (.inr state)
  · exact running_iff state

theorem lines_unbroken_iff_sample :
    Guarded (lineStep 0) (Unbroken 0) (connectionCreate (-1) true : Connection 31)
        [(⟨true, true⟩, lit "protocolVersion 0"), (⟨true, true⟩, lit "C 1 x")] ↔
      Guarded (lineStep 0) (Acceptable 0) (connectionCreate (-1) true : Connection 31)
        [(⟨true, true⟩, lit "protocolVersion 0"), (⟨true, true⟩, lit "C 1 x")] :=
  lines_unbroken_iff 0 (connectionCreate (-1) true) (.inl rfl) _

/-- A line of one word names no call. -/
theorem lines_break : ¬ Guarded (lineStep 0) (Unbroken 0) (connectionCreate (-1) true : Connection 31)
    [(⟨true, true⟩, lit "protocolVersion 0"), (⟨true, true⟩, lit "R")] := by
  rintro ⟨_, next⟩
  have version : lineStep 0 (connectionCreate (-1) true : Connection 31) (⟨true, true⟩, lit "protocolVersion 0") =
      some { connectionCreate 0 true with protocolState := .running } := rfl
  obtain ⟨⟨after, effects, handled, _⟩, _⟩ := next _ version
  cases handled

end VoxiUtil.TextRpcLines
