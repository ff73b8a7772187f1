import VoxiUtil.Err

/-!
Sending through a socket. `sock.c` offers the message to the system once; what the
system does not take of it is not offered again.
-/
namespace VoxiUtil.SockSend
open VoxiUtil.CString VoxiUtil.Err

/-- How the system meets a `write`: with an error, or by taking as many of the bytes as
    it has room for. -/
inductive Outcome where
  | fails (errno : Int32) (strerror : Text)
  | takes (room : Nat)
deriving DecidableEq

/-- What a send does: the returned `Error`, the bytes that the socket accepted, and the
    warning that is printed. -/
structure Sent where
  error : Option Error
  accepted : Text
  warning : Option Text
deriving DecidableEq

def errSock (errno : Int32) (strerror : Text) : Error := errNew .errno errno none strerror

def sockSendBinary (socket : Int32) (msg : Text) (outcome : Outcome) : Sent :=
  match outcome with
  | .fails errno strerror =>
    let description := lit "send_binary(" ++ printInt socket ++ lit ", '" ++ cString msg ++ lit "', " ++
      printInt (Int32.ofNat msg.length) ++ lit ") failed."
    ⟨some (errNew .sock 0 (some (errSock errno strerror)) description), [], none⟩
  | .takes room =>
    let count := min room msg.length
    if count ≠ msg.length then
      ⟨none, msg.take count, some (lit "Problem writing, count=" ++ printInt (Int32.ofNat count))⟩
    else ⟨none, msg, none⟩

/-- The message is the string that starts at the pointer. -/
def sockSend (socket : Int32) (msg : Text) (outcome : Outcome) : Sent := sockSendBinary socket (cString msg) outcome

/-- A call of one of the two functions. -/
structure Call where
  binary : Bool
  msg : Text
  outcome : Outcome

def Call.message (call : Call) : Text := if call.binary then call.msg else cString call.msg

def Call.sent (socket : Int32) (call : Call) : Sent :=
  if call.binary then sockSendBinary socket call.msg call.outcome else sockSend socket call.msg call.outcome

/-- What the peer receives of a sequence of calls. -/
def stream (socket : Int32) (calls : List Call) : Text := (calls.map (fun call => (call.sent socket).accepted)).flatten

/-- A call that reports success has sent everything, and so have many of them. -/
structure Reliable (socket : Int32) (calls : List Call) : Prop where
  whole : ∀ call ∈ calls, (call.sent socket).error = none → (call.sent socket).accepted = call.message
  joined : (∀ call ∈ calls, (call.sent socket).error = none) → stream socket calls = (calls.map Call.message).flatten

/-- The system refuses the message or has room for all of it. -/
def Call.Undivided (call : Call) : Prop :=
  match call.outcome with
  | .fails _ _ => True
  | .takes room => call.message.length ≤ room

theorem sent_eq (socket : Int32) (call : Call) : call.sent socket = sockSendBinary socket call.message call.outcome := by
  unfold Call.sent Call.message sockSend
  split <;> rfl

/-- A call either reports an error and has sent nothing, or sends what there is room for. -/
theorem sent_cases (socket : Int32) (call : Call) :
    (∃ errno strerror, call.outcome = .fails errno strerror ∧ ∃ error, (call.sent socket).error = some error ∧
      (call.sent socket).accepted = []) ∨
    ∃ room, call.outcome = .takes room ∧ (call.sent socket).error = none ∧
      (call.sent socket).accepted = call.message.take room := by
  rw [sent_eq]
  cases outcome : call.outcome with
  | fails errno strerror => exact .inl ⟨errno, strerror, rfl, _, rfl, rfl⟩
  | takes room =>
    refine .inr ⟨room, rfl, ?_⟩
    unfold sockSendBinary
    by_cases short : room < call.message.length
    · have count : min room call.message.length = room := by omega
      simp only [count, ne_eq, Nat.ne_of_lt short, not_false_eq_true, if_true, and_self]
    · have count : min room call.message.length = call.message.length := by omega
      simp only [count, ne_eq, not_true_eq_false, if_false, true_and]
      rw [List.take_of_length_le (by omega)]

theorem whole_iff (socket : Int32) (call : Call) :
    ((call.sent socket).error = none → (call.sent socket).accepted = call.message) ↔ call.Undivided := by
  rcases sent_cases socket call with ⟨errno, strerror, outcome, error, failed, _⟩ | ⟨room, outcome, success, accepted⟩
  · simp [Call.Undivided, outcome, failed]
  · simp only [Call.Undivided, outcome, success, accepted, true_imp_iff]
    exact List.take_eq_self_iff _

/-- A failed call has sent nothing of its message. -/
theorem failed_silent (socket : Int32) (call : Call) (failed : (call.sent socket).error ≠ none) :
    (call.sent socket).accepted = [] := by
  rcases sent_cases socket call with ⟨_, _, _, _, _, nothing⟩ | ⟨_, _, success, _⟩
  · exact nothing
  · exact absurd success failed

/-- Success means that everything was sent exactly when no message is divided. -/
theorem reliable_iff (socket : Int32) (calls : List Call) :
    Reliable socket calls ↔ ∀ call ∈ calls, call.Undivided := by
  constructor
  · intro reliable call member
    exact (whole_iff socket call).mp (reliable.whole call member)
  · intro undivided
    have whole := fun call member => (whole_iff socket call).mpr (undivided call member)
    refine ⟨whole, fun success => ?_⟩
    unfold stream
    congr 1
    exact List.map_congr_left fun call member => whole call member (success call member)

/-- A socket with room for three bytes of five. -/
theorem send_unreliable : ¬ Reliable 7 [⟨false, lit "ping\n", .takes 3⟩] := by
  intro reliable
  have whole := reliable.whole _ (List.mem_singleton.mpr rfl) rfl
  revert whole
  decide

end VoxiUtil.SockSend
