import VoxiUtil.CString

/-!
The errors of `err.c`: records with a type, a number and a description, chained by
their reasons.
-/
namespace VoxiUtil.Err
open VoxiUtil.CString

/-- `ErrType`, in the order of the header. -/
inductive ErrType where
  | unknown | errno | oserr | sock | app | snd | mac | fft | broker | memory | shlib | threading | textRpc | strbuf | loop
  | isiIde | oow | parser | javaGeneric | coowa | winsock | speechRecognition | http | ivr | win32 | driver | nuance
  | stateMachine | logging | llt | dialogicGlobalCall | dialogicCallControl | dialogicDx | queue | ssl | xti | tcl | tcpip
  | sip | icu | sqlite | upnp
deriving DecidableEq

/-- The `int` that a type is printed as. -/
def ErrType.code (type : ErrType) : Int32 := Int32.ofNat type.ctorIdx

/-- One error of a chain. -/
structure Head where
  type : ErrType
  number : Int32
  description : Text
deriving DecidableEq

/-- `struct s_Error`, with a `reason` or without one. -/
inductive Error where
  | root (head : Head)
  | because (head : Head) (reason : Error)
deriving DecidableEq

def errBuffSize : Nat := 1024

/-- `ErrNew`, with the description that its format and arguments make. -/
def errNew (type : ErrType) (number : Int32) (reason : Option Error) (description : Text) : Error :=
  let head : Head := ⟨type, number, description.take (errBuffSize - 1)⟩
  match reason with
  | none => .root head
  | some reason => .because head reason

/-- `ErrErrno`. -/
def errErrno (errno : Int32) (strerror : Text) : Error := errNew .errno errno none strerror

/-- `voxi_sock_error`, which `sock.c` and `tcpip.c` each have: the text for an `h_errno`, and whether it is a copy that was
    allocated for it. Nobody frees that. -/
def voxiSockError (err : Int32) : Text × Bool :=
  if err = 1 then (lit "The specified host is unknown", false)
  else if err = 4 then (lit "The requested name is valid, but it does not have an IP address", false)
  else if err = 3 then (lit "A non-recoverable name server error occurred", false)
  else if err = 2 then (lit "A temporary error occurred on an authoritative name server. Try again later.", false)
  else (lit "Unknown h_error code: " ++ printInt err, true)

/-- The texts that are not copied are those of the four codes that `netdb.h` names. -/
theorem voxiSockError_copied (err : Int32) : (voxiSockError err).2 = true ↔ err ∉ [1, 2, 3, 4] := by
  unfold voxiSockError
  by_cases unknown : err = 1
  · simp [unknown]
  · by_cases none : err = 4
    · simp [none]
    · by_cases recovery : err = 3
      · simp [recovery]
      · by_cases again : err = 2
        · simp [again]
        · simp [unknown, none, recovery, again]

/-- The descriptions of an error and of its reasons, in their order. -/
def descriptions : Error → List Text
  | .root head => [head.description]
  | .because head reason => head.description :: descriptions reason

theorem code_toInt (type : ErrType) : type.code.toInt = type.ctorIdx := by
  cases type <;> rfl

/-- No two types are printed alike. -/
theorem code_injective {a b : ErrType} (same : a.code = b.code) : a = b := by
  have values := congrArg Int32.toInt same
  rw [code_toInt, code_toInt] at values
  have indices : a.ctorIdx = b.ctorIdx := by omega
  rw [← ErrType.ofNat_ctorIdx a, indices, ErrType.ofNat_ctorIdx]

end VoxiUtil.Err
