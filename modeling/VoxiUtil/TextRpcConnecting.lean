import VoxiUtil.TextRpcNegotiation

/-!
The wait at the end of `textRPC_client_create`. The broadcast that it waits for is
made without the mutex and the wait has no predicate, so the thread gets stuck when
the handler of the server's request is faster.
-/
namespace VoxiUtil.TextRpcConnecting
open VoxiUtil.CString VoxiUtil.Runs VoxiUtil.TextRpc VoxiUtil.TextRpcFraming VoxiUtil.TextRpcNegotiation
variable {m n size : Nat} [NeZero m] [NeZero n] [NeZero size]

/-- The connection runs and the broadcast is over, but the creating thread waits for it
    or has still to wait for it. -/
def Stuck (s : State m n) : Prop :=
  s.client.connection.protocolState = .running ∧ 0 < s.broadcasts ∧ s.creator.early = true

/-- The handler of the client makes its broadcast while the creating thread waits. -/
def Awaited (s : State m n) : Label → Prop
  | .client .act => s.client.todo.head? = some .broadcastInit → s.creator = .waiting
  | _ => True

/-- The invariant while each broadcast is awaited. -/
structure Connects (clientLatest serverLatest : Int32) (s : State m n) : Prop where
  negotiates : Negotiates clientLatest serverLatest s
  past : 0 < s.broadcasts → s.creator.early = false

section
variable {clientLatest serverLatest : Int32} {s t : State m n}

/-- Only the handler broadcasts, when it comes to that. -/
private theorem broadcast_cause {latest : Int32} {mayCall : Bool} {e after : End size} {a : EndLabel} {bytes : Text}
    (stepped : endStep latest mayCall e a = some (after, bytes, true)) :
    a = .act ∧ e.todo.head? = some .broadcastInit ∧ after.connection = e.connection := by
  cases a with
  | handle => simp [endStep] at stepped
  | act =>
    simp only [endStep] at stepped
    split at stepped <;> simp_all
    obtain ⟨rfl, _⟩ := stepped
    rfl
  | call id block text =>
    simp only [endStep] at stepped
    split at stepped
    · obtain ⟨_, _, same⟩ := Option.map_eq_some_iff.mp stepped
      cases same
    · cases stepped
  | forget call => simp [endStep] at stepped
  | answer input result =>
    simp only [endStep] at stepped
    split at stepped
    · split at stepped <;> simp at stepped
    · cases stepped

/-- Apart from its own steps the creating thread is moved by a broadcast only. -/
private theorem creator_cases {a : Label} (stepped : step clientLatest serverLatest s a = some t) :
    (t.broadcasts = s.broadcasts ∧ t.creator.early = s.creator.early) ∨
      a = .client .act ∧ s.client.todo.head? = some .broadcastInit ∧ t.client.connection = s.client.connection ∧
        t.broadcasts = s.broadcasts + 1 ∧ t.creator = if s.creator = .waiting then .woken else s.creator := by
  cases a with
  | connect | lock | wait | back =>
    simp only [step, State.created] at stepped
    split at stepped
    · rename_i place
      cases stepped
      exact .inl ⟨rfl, by rw [place]; rfl⟩
    · cases stepped
  | accept | negotiate =>
    simp only [step] at stepped
    split at stepped
    · first | cases stepped | obtain ⟨_, _, rfl⟩ := Option.map_eq_some_iff.mp stepped
      exact .inl ⟨rfl, rfl⟩
    · cases stepped
  | server a =>
    obtain ⟨_, _, _, _, _, _, rfl⟩ := server_cases stepped
    exact .inl ⟨rfl, rfl⟩
  | client a =>
    obtain ⟨_, client, bytes, broadcast, lines, did, _, rfl⟩ := client_cases stepped
    cases broadcast with
    | false => exact .inl ⟨rfl, by simp [clientDone]⟩
    | true =>
      obtain ⟨rfl, first, same⟩ := broadcast_cause did
      exact .inr ⟨rfl, first, same, rfl, by simp [clientDone]⟩

/-- The broadcast is the first one, and the client runs when it is made. -/
private theorem broadcast_first (negotiates : Negotiates clientLatest serverLatest s)
    (first : s.client.todo.head? = some .broadcastInit) :
    s.client.connection.protocolState = .running ∧ s.broadcasts = 0 := by
  cases negotiates.phase with
  | starting _ _ client | asked client => rw [client.todo] at first; cases first
  | answering _ todo => rw [todo] at first; cases first
  | answered client _ _ pending =>
    refine ⟨client.state, ?_⟩
    rcases pending with ⟨_, quiet⟩ | ⟨made, _⟩
    · exact quiet
    · exact absurd (List.mem_of_head? first) made

theorem step_connects (s : State m n) (a : Label) (t : State m n) (connects : Connects clientLatest serverLatest s)
    (awaited : Awaited s a) (stepped : step clientLatest serverLatest s a = some t) :
    Connects clientLatest serverLatest t := by
  refine ⟨step_negotiates s a t connects.negotiates stepped, fun made => ?_⟩
  rcases creator_cases stepped with ⟨same, early⟩ | ⟨rfl, first, _, _, creator⟩
  · rw [early]
    exact connects.past (same ▸ made)
  · rw [creator, if_pos (awaited first)]
    rfl

/-- A broadcast that is not awaited leaves the creating thread behind. -/
theorem step_stuck (s : State m n) (a : Label) (t : State m n) (connects : Connects clientLatest serverLatest s)
    (missed : ¬ Awaited s a) (stepped : step clientLatest serverLatest s a = some t) : Stuck t := by
  cases a with
  | client a =>
    cases a with
    | act =>
      simp only [Awaited, Classical.not_imp] at missed
      obtain ⟨first, elsewhere⟩ := missed
      obtain ⟨runs, quiet⟩ := broadcast_first connects.negotiates first
      obtain ⟨rest, todo⟩ := List.head?_eq_some_iff.mp first
      obtain ⟨_, client, bytes, broadcast, lines, did, _, rfl⟩ := client_cases stepped
      simp only [endStep, todo, Option.some.injEq, Prod.mk.injEq] at did
      obtain ⟨rfl, rfl, rfl⟩ := did
      refine ⟨runs, Nat.succ_pos _, ?_⟩
      simpa [clientDone, elsewhere] using connects.negotiates.early quiet
    | _ => exact absurd trivial missed
  | _ => exact absurd trivial missed

/-- A creating thread that is stuck stays so. -/
theorem stuck_stays (s : State m n) (a : Label) (t : State m n) (negotiates : Negotiates clientLatest serverLatest s)
    (stuck : Stuck s) (stepped : step clientLatest serverLatest s a = some t) : Stuck t := by
  obtain ⟨_, made, early⟩ := stuck
  rcases creator_cases stepped with ⟨same, kept⟩ | ⟨_, first, _⟩
  · have more : 0 < t.broadcasts := same ▸ made
    refine ⟨?_, more, kept ▸ early⟩
    cases (step_negotiates s a t negotiates stepped).phase with
    | starting _ _ _ _ _ quiet | asked _ _ _ quiet | answering _ _ _ _ _ quiet => rw [quiet] at more; cases more
    | answered client => exact client.state
  · have quiet := (broadcast_first negotiates first).2
    omega

end

/-- In every state that a run passes the creating thread is not stuck, exactly when it
    waits each time the handler makes its broadcast. -/
theorem connecting_iff (clientLatest serverLatest garbage : Int32) {labels : List Label} {t : State m n}
    (ran : run (step clientLatest serverLatest) (initial m n clientLatest garbage) labels = some t) :
    Visits (step clientLatest serverLatest) (fun s => ¬ Stuck s) (initial m n clientLatest garbage) labels ↔
      Guarded (step clientLatest serverLatest) Awaited (initial m n clientLatest garbage) labels :=
  visits_iff_guarded (fun s a t _ connects awaited stepped => step_connects s a t connects awaited stepped)
    (fun s connects stuck => by have past := connects.past stuck.2.1; rw [stuck.2.2] at past; cases past)
    (fun s a t _ connects missed stepped => not_not.mpr (step_stuck s a t connects missed stepped))
    (guarded_forall fun _ _ _ => trivial) ⟨initial_negotiates clientLatest serverLatest garbage, nofun⟩ ran

theorem connecting_iff_handshake :
    Visits (step 0 0) (fun s => ¬ Stuck s) (initial 16 31 0 (-1)) handshake ↔
      Guarded (step 0 0) Awaited (initial 16 31 0 (-1)) handshake := by
  obtain ⟨s, ran, _⟩ := handshake_done (m := 16) (n := 31) 0 0 (-1)
  exact connecting_iff 0 0 (-1) ran

/-- The request is handled between `sock_connect` and the wait. -/
theorem connecting_stuck : ∃ s : State 16 31,
    run (step 0 0) (initial 16 31 0 (-1)) [.connect, .accept, .negotiate, .client .handle, .client .act, .client .act, .lock,
      .wait] = some s ∧ Stuck s := by
  simp [run, step, State.created, initial, End.start, connectionCreate, endStep, End.handleStep, request_received,
    version_received, receivedLines_nil, request_negotiated, Stuck, Creator.early]

end VoxiUtil.TextRpcConnecting
