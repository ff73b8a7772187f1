import VoxiUtil.Err

/-!
The exact read of `tcpip.c`. What the peer and the system do to the connection is the
list of what `recv` meets, one after another; a `recv` that meets nothing waits.
-/
namespace VoxiUtil.Tcpip
open VoxiUtil.CString VoxiUtil.Err

/-- Bytes that arrive together: at least one, and no more than an `int` counts, as one
    `recv` takes. -/
structure Segment where
  bytes : Text
  any : bytes ≠ []
  int : bytes.length ≤ 2147483647
deriving DecidableEq

/-- What a `recv` meets: bytes, a peer that has closed, or a failure. -/
inductive Input where
  | data (segment : Segment)
  | closed
  | failed (errno : Int32) (strerror : Text)
deriving DecidableEq

/-- How the call of `tcp_read` ends. `fault` is a failed assertion or an `int` out of
    range; `waiting` is a `recv` that has nothing to return yet. -/
inductive Result where
  | waiting
  | fault
  | returned (error : Option Error) (data : Text) (rest : List Input)
deriving DecidableEq

/-- What a segment that is longer than the read leaves. -/
def leftOver (segment : Segment) (length : Nat) : List Input :=
  if longer : length < segment.bytes.length then
    [.data ⟨segment.bytes.drop length, by simpa using longer,
      Nat.le_trans (by rw [List.length_drop]; exact Nat.sub_le _ _) segment.int⟩]
  else []

/-- A value of a `size_t` converted to `int`, and back. -/
def toInt (size : Nat) : Int := (size : Int).bmod 4294967296

def toSize (value : Int) : Nat := (value % 18446744073709551616).toNat

/-- The loop of `tcp_read`, for at most `turns` turns; `data` has the bytes that are stored
    so far from the start of the buffer on. -/
def readLoop : Nat → Int → Text → List Input → Result
  | 0, _, _, _ => .fault
  | turns + 1, remainBufLen, data, inputs =>
    match inputs with
    | [] => .waiting
    | .failed errno strerror :: rest =>
      .returned (some (errNew .tcpip 0 (some (errErrno errno strerror)) (lit "recv error"))) data rest
    -- `recv` returns 0, and `assert( tempint > 0 )` fails.
    | .closed :: _ => .fault
    | .data segment :: rest =>
      let taken := segment.bytes.take (toSize remainBufLen)
      if taken.length = 0 then .fault
      else
        let remain := remainBufLen - taken.length
        if remain < -2147483648 then .fault
        else
          let data := data ++ taken
          let rest := leftOver segment (toSize remainBufLen) ++ rest
          if 0 < remain then readLoop turns remain data rest else .returned none data rest

/-- `tcp_read`. -/
def tcpRead (size : Nat) (inputs : List Input) : Result := readLoop (inputs.length + 1) (toInt size) [] inputs

/-- The bytes of the stream. -/
def stream : List Input → Text
  | [] => []
  | .data segment :: rest => segment.bytes ++ stream rest
  | .closed :: rest => stream rest
  | .failed _ _ :: rest => stream rest

/-- What comes first: all of the bytes that are wanted, a close, a failure or none of these. -/
inductive First where
  | bytes | closed | failed | nothing
deriving DecidableEq

def first (wanted : Nat) : List Input → First
  | [] => .nothing
  | .closed :: _ => .closed
  | .failed _ _ :: _ => .failed
  | .data segment :: rest =>
    if wanted ≤ segment.bytes.length then .bytes else first (wanted - segment.bytes.length) rest

/-- The next `size` bytes of the stream were stored, and nothing more was consumed. -/
def Exact (size : Nat) (inputs : List Input) (data : Text) (rest : List Input) : Prop :=
  data.length = size ∧ stream inputs = data ++ stream rest

/-- The contract: the call fails no assertion, it waits only while neither `size` bytes nor
    a close nor a failure has come, and it returns `NULL` exactly after an exact read. -/
def Contract (size : Nat) (inputs : List Input) : Prop :=
  match tcpRead size inputs with
  | .fault => False
  | .waiting => first size inputs = .nothing
  | .returned error data rest => error = none ↔ Exact size inputs data rest

/-- The read comes to its end before the peer closes: by a failure, or by the bytes when
    their number is a positive `int`. -/
def Undisturbed (size : Nat) (inputs : List Input) : Prop :=
  match first (max 1 (toInt size).toNat) inputs with
  | .nothing => True
  | .failed => 0 < size
  | .closed => False
  | .bytes => 1 ≤ size ∧ size ≤ 2147483647

section
variable {turns remain size : Nat} {data : Text} {inputs rest : List Input} {segment : Segment}

theorem toSize_nat (small : remain < 18446744073709551616) : toSize remain = remain := by
  rw [toSize, Int.emod_eq_of_lt (Int.natCast_nonneg remain) (by exact_mod_cast small), Int.toNat_natCast]

theorem leftOver_stream (segment : Segment) (length : Nat) : stream (leftOver segment length) = segment.bytes.drop length := by
  unfold leftOver
  split
  · simp [stream]
  · rename_i short
    rw [List.drop_eq_nil_of_le (by omega)]
    rfl

theorem stream_append : stream (inputs ++ rest) = stream inputs ++ stream rest := by
  induction inputs with
  | nil => rfl
  | cons input inputs ih => cases input <;> simp [stream, ih]

/-- The turn of the loop that takes bytes for a positive `int`. -/
theorem readLoop_data (positive : 0 < remain) (int : remain ≤ 2147483647) :
    readLoop (turns + 1) remain data (.data segment :: rest) =
      if segment.bytes.length < remain then
        readLoop turns (remain - segment.bytes.length : Nat) (data ++ segment.bytes) rest
      else .returned none (data ++ segment.bytes.take remain) (leftOver segment remain ++ rest) := by
  have length : toSize (remain : Int) = remain := toSize_nat (by omega)
  have any := List.length_pos_of_ne_nil segment.any
  rw [readLoop, length]
  simp only [List.length_take]
  rw [if_neg (by omega), if_neg (by omega)]
  by_cases short : segment.bytes.length < remain
  · have whole : leftOver segment remain = [] := dif_neg (by omega)
    have more : 0 < (remain : Int) - (min remain segment.bytes.length : Nat) := by omega
    rw [if_pos short, if_pos more, whole, List.nil_append, List.take_of_length_le (Nat.le_of_lt short)]
    congr 1
    omega
  · have done : ¬ 0 < (remain : Int) - (min remain segment.bytes.length : Nat) := by omega
    rw [if_neg short, if_neg done]

/-- The loop for a positive `int`, by what comes first. -/
theorem readLoop_first (positive : 0 < remain) (int : remain ≤ 2147483647) (enough : inputs.length < turns) :
    match first remain inputs with
    | .nothing => readLoop turns remain data inputs = .waiting
    | .closed => readLoop turns remain data inputs = .fault
    | .failed => ∃ error more rest, readLoop turns remain data inputs = .returned (some error) (data ++ more) rest ∧
        more.length < remain
    | .bytes => ∃ more rest, readLoop turns remain data inputs = .returned none (data ++ more) rest ∧
        more.length = remain ∧ stream inputs = more ++ stream rest := by
  induction inputs generalizing remain turns data with
  | nil =>
    obtain ⟨turns, rfl⟩ := Nat.exists_eq_succ_of_ne_zero (Nat.ne_of_gt enough)
    rfl
  | cons input rest ih =>
    obtain ⟨turns, rfl⟩ := Nat.exists_eq_succ_of_ne_zero (Nat.ne_of_gt (Nat.lt_of_le_of_lt (Nat.zero_le _) enough))
    cases input with
    | closed => rfl
    | failed errno strerror =>
      refine ⟨errNew .tcpip 0 (some (errErrno errno strerror)) (lit "recv error"), [], rest, ?_, positive⟩
      rw [List.append_nil]
      rfl
    | data segment =>
      rw [readLoop_data positive int, first]
      by_cases fills : remain ≤ segment.bytes.length
      · rw [if_pos fills, if_neg (Nat.not_lt.mpr fills)]
        refine ⟨segment.bytes.take remain, leftOver segment remain ++ rest, rfl, ?_, ?_⟩
        · simpa using fills
        · rw [stream_append, leftOver_stream, ← List.append_assoc, List.take_append_drop]
          rfl
      · have short : segment.bytes.length < remain := Nat.not_le.mp fills
        have later := @ih turns (remain - segment.bytes.length) (data ++ segment.bytes) (by omega) (by omega)
          (Nat.lt_of_succ_lt_succ enough)
        rw [if_neg fills, if_pos short]
        split
        · rename_i comes
          rw [comes] at later
          exact later
        · rename_i comes
          rw [comes] at later
          exact later
        · rename_i comes
          rw [comes] at later
          obtain ⟨error, more, behind, ran, less⟩ := later
          refine ⟨error, segment.bytes ++ more, behind, by rw [ran, List.append_assoc], ?_⟩
          rw [List.length_append]
          omega
        · rename_i comes
          rw [comes] at later
          obtain ⟨more, behind, ran, length, joined⟩ := later
          refine ⟨segment.bytes ++ more, behind, by rw [ran, List.append_assoc], ?_, ?_⟩
          · rw [List.length_append]
            omega
          · rw [stream, joined, List.append_assoc]

theorem first_more {wanted : Nat} (more : remain ≤ wanted) (nothing : first remain inputs = .nothing) :
    first wanted inputs = .nothing := by
  induction inputs generalizing remain wanted with
  | nil => rfl
  | cons input rest ih =>
    cases input with
    | closed => cases nothing
    | failed errno strerror => cases nothing
    | data segment =>
      rw [first] at nothing ⊢
      by_cases fills : remain ≤ segment.bytes.length
      · rw [if_pos fills] at nothing
        cases nothing
      · rw [if_neg fills] at nothing
        rw [if_neg (by omega)]
        exact ih (by omega) nothing

theorem toInt_cases (size : Nat) : (toInt size).toNat ≤ size ∧ toInt size ≤ 2147483647 ∧ -2147483648 ≤ toInt size ∧
    (size ≤ 2147483647 ↔ toInt size = size) ∧ (toInt size < 0 → toInt size + 4294967296 ≤ size) := by
  have low : -(((4294967296 : Nat) : Int) / 2) ≤ toInt size := Int.le_bmod (by decide)
  have high : toInt size < (((4294967296 : Nat) : Int) + 1) / 2 := Int.bmod_lt (by decide)
  obtain ⟨turns, whole⟩ : ∃ k : Int, (size : Int) = toInt size + 4294967296 * k := by
    refine ⟨(size : Int).bdiv 4294967296, ?_⟩
    exact (Int.bmod_add_bdiv (size : Int) 4294967296).symm
  refine ⟨?_, ?_, ?_, ?_, ?_⟩ <;> omega

/-- The loop for an `int` that is not positive: its one turn takes too little or nothing. -/
theorem readLoop_wrong (wrong : toInt size ≤ 0) (segment : Segment) (rest : List Input) :
    readLoop (turns + 1) (toInt size) [] (.data segment :: rest) = .fault ∨ ∃ data behind,
      readLoop (turns + 1) (toInt size) [] (.data segment :: rest) = .returned none data behind ∧ data.length ≠ size := by
  obtain ⟨_, _, low, _, wraps⟩ := toInt_cases size
  by_cases zero : toInt size = 0
  · left
    rw [readLoop, zero]
    exact if_pos rfl
  · have int := segment.int
    have any := List.length_pos_of_ne_nil segment.any
    have length : segment.bytes.length ≤ toSize (toInt size) := by
      rw [toSize]
      omega
    rw [readLoop, List.take_of_length_le length]
    simp only []
    rw [if_neg (by omega)]
    by_cases low : toInt size - segment.bytes.length < -2147483648
    · left
      rw [if_pos low]
    · right
      rw [if_neg low, if_neg (by omega)]
      refine ⟨_, _, rfl, ?_⟩
      rw [List.nil_append]
      omega

/-- `tcp_read` keeps its contract exactly when it is undisturbed. -/
theorem tcpRead_iff (size : Nat) (inputs : List Input) : Contract size inputs ↔ Undisturbed size inputs := by
  obtain ⟨least, int, _, fits, _⟩ := toInt_cases size
  by_cases positive : 0 < toInt size
  · have wanted : ((toInt size).toNat : Int) = toInt size := Int.toNat_of_nonneg (Int.le_of_lt positive)
    have ran := @readLoop_first (inputs.length + 1) (toInt size).toNat [] inputs (by omega) (by omega) (Nat.lt_succ_self _)
    rw [wanted] at ran
    rw [Contract, Undisturbed, tcpRead, Nat.max_eq_right (by omega : 1 ≤ (toInt size).toNat)]
    cases comes : first (toInt size).toNat inputs with
    | nothing =>
      rw [comes] at ran
      simp [ran, first_more least comes]
    | closed =>
      rw [comes] at ran
      simp [ran]
    | failed =>
      rw [comes] at ran
      obtain ⟨error, more, rest, ran, less⟩ := ran
      have other : ¬ Exact size inputs more rest := fun exact => by
        have := exact.1
        omega
      simp only [ran, List.nil_append]
      simp [other]
      omega
    | bytes =>
      rw [comes] at ran
      obtain ⟨more, rest, ran, length, joined⟩ := ran
      simp only [ran, List.nil_append]
      simp [Exact, joined, length]
      omega
  · have wrong : toInt size ≤ 0 := Int.not_lt.mp positive
    have one : max 1 (toInt size).toNat = 1 := by omega
    have outside : ¬ (1 ≤ size ∧ size ≤ 2147483647) := by omega
    rw [Contract, Undisturbed, tcpRead, one]
    cases inputs with
    | nil => simp [readLoop, first]
    | cons input rest =>
      cases input with
      | closed => simp [readLoop, first]
      | failed errno strerror =>
        simp [readLoop, first, Exact, stream]
      | data segment =>
        have any := List.length_pos_of_ne_nil segment.any
        have comes : first 1 (.data segment :: rest) = .bytes := by
          rw [first]
          exact if_pos any
        rw [comes]
        rcases @readLoop_wrong (.data segment :: rest : List Input).length size wrong segment rest with fault | ⟨data, behind, ran, short⟩
        · simp only [fault, outside]
        · simp [ran, Exact, short, outside, -List.length_cons]

/-- A peer that closes in the middle of the record, a request for no bytes, and one whose
    number of bytes is not an `int`. -/
theorem read_aborts : ¬ Contract 2 [.data ⟨[65], by decide, by decide⟩, .closed] ∧
    ¬ Contract 0 [.data ⟨[65], by decide, by decide⟩] ∧ ¬ Contract 4294967297 [.data ⟨[65], by decide, by decide⟩] := by
  refine ⟨fun contract => contract, fun contract => contract, fun contract => ?_⟩
  have exact : Exact 4294967297 [.data ⟨[65], by decide, by decide⟩] [65] [] := contract.mp rfl
  cases exact.1

end
end VoxiUtil.Tcpip
