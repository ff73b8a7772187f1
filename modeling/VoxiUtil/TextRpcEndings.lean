import VoxiUtil.TextRpcCalls

/-!
What a finished call leaves behind. The table has just the calls in progress, and
every call ends, as long as each request is sent and answered by a result: the early
return with an exception skips `HashDelete`, and a call whose request was not sent
waits all the same.
-/
namespace VoxiUtil.TextRpcEndings
open VoxiUtil.CString VoxiUtil.Hash VoxiUtil.HashSet VoxiUtil.Representatives VoxiUtil.Runs VoxiUtil.TextRpc
open VoxiUtil.TextRpcCalls
open VoxiUtil.Err (errBuffSize)
variable {size : Nat} [NeZero size]

/-- The call is in the table and its thread has not returned. -/
def inProgress : Pc → Bool
  | .registered | .locked | .sent | .waiting | .woken | .resumed => true
  | _ => false

/-- It is settled how the call ends: its request was not sent, or its reply was received. -/
def Ending (s : State size) (k : Nat) : Prop :=
  ((s.pc k).asking = true ∧ s.ids k ∉ s.requests) ∨ s.pc k = .woken ∨ s.pc k = .resumed

/-- The `Error` that `textRPC_call` returns. -/
def Outcome.returnedError : Outcome → Option Text
  | .exception description => some description
  | .result _ error => error

/-- The call comes to its return and is in the table no more, without anything else from the peer. -/
def Leaves (s : State size) (k : Nat) (out : Outcome) : Prop :=
  ∃ labels t, (∀ a ∈ labels, Label.onward a = true) ∧ run step s labels = some t ∧ t.pc k = .returned out ∧
    ∀ record ∈ records t.connection.outstandingCalls, record.data ≠ s.call k

structure NoTrace (s : State size) : Prop where
  /-- The table has exactly the calls in progress. -/
  exact : ∀ call, (∃ record ∈ records s.connection.outstandingCalls, record.data = call) ↔
    ∃ k, call = s.call k ∧ inProgress (s.pc k) = true
  /-- However a call ends, it returns, with the error of `sock_send` if there was one. -/
  ends : ∀ k, Ending s k → ∃ out, Leaves s k out ∧ ∀ error, s.error k = some error → Outcome.returnedError out = some error
  returned : ∀ k out error, s.pc k = .returned out → s.error k = some error → Outcome.returnedError out = some error

/-- An id that is put into the table is not that of an outstanding call, a request is sent,
    and a request is answered by a result. -/
def Clean (s : State size) : Label → Prop
  | .register k => hashFind s.connection.outstandingCalls ⟨s.ids k, 0⟩ = none
  | .send _ error => error = none
  | .receive id (.error _) => id ∉ s.requests
  | _ => True

/-- The invariant while all steps are clean. -/
structure Tidy (s : State size) : Prop where
  coherent : Coherent s
  results : ∀ p ∈ s.received, ∃ text, p.2 = .result text

section
variable {s t : State size} {k : Nat}

theorem clean_sound {a : Label} (clean : Clean s a) : Sound s a := by
  cases a with
  | register k => exact clean
  | send k error => exact clean
  | _ => trivial

theorem step_tidy (s : State size) (a : Label) (t : State size) (tidy : Tidy s) (clean : Clean s a)
    (stepped : step s a = some t) : Tidy t := by
  refine ⟨step_coherent s a t tidy.coherent (clean_sound clean) stepped, ?_⟩
  cases a with
  | take => cases stepped; exact tidy.results
  | send k error =>
    obtain ⟨_, rfl⟩ := send_cases stepped
    exact tidy.results
  | receive id reply =>
    rcases receive_cases tidy.coherent stepped with ⟨_, ⟨_, _, rfl⟩ | ⟨k, _, _, asked, _, _, _, rfl⟩⟩
    · exact tidy.results
    · intro p member
      rcases List.mem_cons.mp member with rfl | earlier
      · cases reply with
        | result text => exact ⟨text, rfl⟩
        | error text => exact absurd asked clean
      · exact tidy.results p earlier
  | _ =>
    rw [(quiet_kept rfl stepped).received]
    exact tidy.results

/-- A call that is back has a result. -/
theorem tidy_returned (tidy : Tidy s) {out : Outcome} (back : s.pc k = .returned out) :
    ∃ text error, out = .result text error := by
  obtain ⟨reply, answer, got, made, rfl⟩ := (tidy.coherent.standing k).returned out back
  obtain ⟨text, same⟩ := tidy.results _ got
  obtain rfl : reply = .result text := same
  obtain rfl := Except.ok.inj made
  exact ⟨text, _, rfl⟩

theorem table_iff (coherent : Coherent s) (call : OutstandingCall) :
    (∃ record ∈ records s.connection.outstandingCalls, record.data = call) ↔ Outstanding s call := by
  obtain ⟨S, refines, same⟩ := coherent.table
  rw [← refines.same, same]

theorem tidy_noTrace (tidy : Tidy s) : NoTrace s := by
  have coherent := tidy.coherent
  refine ⟨fun call => (table_iff coherent call).trans ⟨fun outstanding => ?_, ?_⟩, fun k ending => ?_,
    fun k out error _ failed => ?_⟩
  · refine ⟨call.address, ?_, ?_⟩
    · rw [State.call, ← outstanding.1]
    · have listed := outstanding.2
      cases place : s.pc call.address with
      | returned out =>
        obtain ⟨text, error, rfl⟩ := tidy_returned tidy place
        rw [place] at listed
        cases listed
      | outside | taken => rw [place] at listed; cases listed
      | _ => rfl
  · rintro ⟨k, rfl, progress⟩
    refine ⟨rfl, ?_⟩
    show (s.pc k).listed = true
    revert progress
    cases s.pc k <;> simp [inProgress, Pc.listed]
  · have replied : InHand s k ∨ s.pc k = .woken ∨ s.pc k = .resumed := by
      rcases ending with ⟨asks, unasked⟩ | woken
      · exact .inl (((coherent.standing k).asking asks).resolve_left unasked)
      · exact .inr woken
    have formed : ∀ p ∈ s.received, ∃ answer, answerOf p.2 = .ok answer := by
      intro p member
      obtain ⟨text, same⟩ := tidy.results p member
      exact ⟨.result text, by rw [same]; rfl⟩
    obtain ⟨out, labels, t, onward, ran, back⟩ := replied_returns coherent formed replied
    obtain ⟨after, kept⟩ := onward_run onward coherent ran
    have tidyAfter : Tidy t := ⟨after, by rw [kept.received]; exact tidy.results⟩
    refine ⟨out, ⟨labels, t, onward, ran, back, fun record member same => ?_⟩, fun error failed => ?_⟩
    · obtain ⟨text, error, rfl⟩ := tidy_returned tidyAfter back
      have listed := ((table_iff after (s.call k)).mp ⟨record, member, same⟩).2
      rw [State.call, back] at listed
      cases listed
    · rw [coherent.silent] at failed; cases failed
  · rw [coherent.silent] at failed; cases failed

/-- The thread of the call waits, or is about to, and no reply for it is at hand. -/
private def Forsaken (s : State size) (k : Nat) : Prop := (s.pc k).asking = true ∧ ¬ InHand s k

private theorem forsaken_step {a : Label} (onward : a.onward = true) (forsaken : Forsaken s k)
    (stepped : step s a = some t) : Forsaken t k := by
  obtain ⟨asks, unhandled⟩ := forsaken
  cases a with
  | wait j =>
    obtain ⟨_, rfl⟩ := wait_cases stepped
    exact ⟨pc_update asks fun _ => rfl, unhandled⟩
  | resume j =>
    obtain ⟨place, rfl⟩ := resume_cases stepped
    refine ⟨pc_update asks fun held => ?_, unhandled⟩
    rw [place] at held
    cases held
  | store =>
    obtain ⟨call, isException, message, answer, found, _, _, rfl⟩ := store_cases stepped
    exact ⟨asks, fun inHand => unhandled (by simpa [InHand, found] using inHand)⟩
  | broadcast =>
    obtain ⟨call, stored, rfl⟩ := broadcast_cases stepped
    have other : k ≠ call.address := fun own => unhandled (by simp [InHand, stored, own])
    refine ⟨?_, id⟩
    split
    · simpa [other] using asks
    · exact asks
  | finish j =>
    obtain ⟨place, answer, table, _, rfl⟩ := finish_cases stepped
    refine ⟨pc_update asks fun held => ?_, unhandled⟩
    rw [withTable_pc, place] at held
    cases held
  | _ => cases onward

/-- Without a reply the call stays where it is. -/
theorem forsaken_stays (forsaken : Forsaken s k) (out : Outcome) : ¬ Returns s k out := by
  rintro ⟨labels, t, onward, ran, back⟩
  have waits := guarded_run (fun m => Forsaken m k) (fun _ _ _ before onward stepped => forsaken_step onward before stepped)
    forsaken (guarded_forall fun a member _ => onward a member) ran
  have asks := waits.1
  rw [back] at asks
  cases asks

/-- The answer of the call is, or will be, an exception. -/
private inductive Excepted (s : State size) (k : Nat) : Prop where
  | found (message : Option Text) (id : Int32) (asks : (s.pc k).asking = true)
      (held : s.receiver = .found ⟨id, k⟩ true message)
  | stored (description : Text) (id : Int32) (held : s.receiver = .stored ⟨id, k⟩)
      (answer : s.connection.answers k = some (.error description))
  | woken (description : Text) (place : s.pc k = .woken ∨ s.pc k = .resumed)
      (answer : s.connection.answers k = some (.error description))
  | returned (description : Text) (back : s.pc k = .returned (.exception description))

private theorem excepted_frame (excepted : Excepted s k) (pc : t.pc k = s.pc k) (receiver : t.receiver = s.receiver)
    (answers : t.connection.answers k = s.connection.answers k) : Excepted t k := by
  cases excepted with
  | found message id asks held => exact .found message id (pc ▸ asks) (receiver ▸ held)
  | stored description id held answer => exact .stored description id (receiver ▸ held) (answers ▸ answer)
  | woken description place answer => exact .woken description (pc ▸ place) (answers ▸ answer)
  | returned description back => exact .returned description (pc ▸ back)

private theorem makeAnswer_exception {message : Option Text} {answer : Answer}
    (made : makeAnswer true message = .ok answer) : ∃ description, answer = .error description := by
  simp only [makeAnswer, if_true] at made
  split at made
  · cases made
  · cases made; exact ⟨_, rfl⟩

private theorem excepted_store (coherent : Coherent s) (excepted : Excepted s k) (stepped : step s .store = some t) :
    Excepted t k := by
  obtain ⟨call, isException, message, answer, found, free, made, rfl⟩ := store_cases stepped
  have waits := store_waits coherent found free
  have other : s.pc k ≠ .waiting → k ≠ call.address := fun differ own => differ (own ▸ waits)
  cases excepted with
  | found _ id _ held =>
    obtain ⟨rfl, rfl, rfl⟩ := Receiver.found.inj (found.symm.trans held)
    obtain ⟨description, rfl⟩ := makeAnswer_exception made
    exact .stored description id rfl (Function.update_self _ _ _)
  | stored _ _ held => rw [found] at held; cases held
  | woken description place answered =>
    have apart := other (by rcases place with place | place <;> simp [place])
    exact .woken description place ((Function.update_of_ne apart _ _).trans answered)
  | returned description back => exact .returned description back

private theorem excepted_broadcast (coherent : Coherent s) (excepted : Excepted s k) (stepped : step s .broadcast = some t) :
    Excepted t k := by
  obtain ⟨call, stored, waits, rfl⟩ := broadcast_wakes coherent stepped
  have other : s.pc k ≠ .waiting → k ≠ call.address := fun differ own => differ (own ▸ waits)
  cases excepted with
  | found _ _ _ held => rw [stored] at held; cases held
  | stored description id held answer =>
    obtain rfl := Receiver.stored.inj (stored.symm.trans held)
    exact .woken description (.inl (by simp)) answer
  | woken description place answer =>
    have apart := other (by rcases place with place | place <;> simp [place])
    exact .woken description (by simpa [apart] using place) answer
  | returned description back =>
    have apart := other (by simp [back])
    exact .returned description (by simpa [apart] using back)

private theorem excepted_step {a : Label} (onward : a.onward = true) (coherent : Coherent s) (excepted : Excepted s k)
    (stepped : step s a = some t) : Excepted t k := by
  cases a with
  | store => exact excepted_store coherent excepted stepped
  | broadcast => exact excepted_broadcast coherent excepted stepped
  | wait j =>
    obtain ⟨place, rfl⟩ := wait_cases stepped
    cases excepted with
    | found message id asks held => exact .found message id (pc_update asks fun _ => rfl) held
    | stored description id held answer => exact .stored description id held answer
    | woken description held answer =>
      have other : k ≠ j := by rintro rfl; simp [place] at held
      exact .woken description (by simpa [other] using held) answer
    | returned description back =>
      have other : k ≠ j := by rintro rfl; simp [place] at back
      exact .returned description (by simpa [other] using back)
  | resume j =>
    obtain ⟨place, rfl⟩ := resume_cases stepped
    by_cases own : k = j
    · subst own
      cases excepted with
      | found _ _ asks => rw [place] at asks; cases asks
      | stored description id held answer => exact .stored description id held answer
      | woken description _ answer => exact .woken description (.inr (by simp)) answer
      | returned _ back => simp [place] at back
    · exact excepted_frame excepted (Function.update_of_ne own _ _) rfl rfl
  | finish j =>
    obtain ⟨place, answer, table, answered, rfl⟩ := finish_cases stepped
    by_cases own : k = j
    · subst own
      cases excepted with
      | found _ _ asks => rw [place] at asks; cases asks
      | stored description _ _ stored | woken description _ stored =>
        obtain rfl := Option.some.inj (answered.symm.trans stored)
        exact .returned description (by simp [outcome])
      | returned _ back => simp [place] at back
    · exact excepted_frame excepted (Function.update_of_ne own _ _) rfl rfl
  | _ => cases onward

/-- A call that comes back with an exception stays in the table. -/
private theorem excepted_stays (coherent : Coherent s) (excepted : Excepted s k) (out : Outcome) : ¬ Leaves s k out := by
  rintro ⟨labels, t, onward, ran, back, gone⟩
  obtain ⟨after, kept⟩ := onward_run onward coherent ran
  have exception := guarded_run (fun m => Coherent m ∧ Excepted m k)
    (fun m a n before onward stepped =>
      ⟨step_coherent m a n before.1 (onward_sound onward).1 stepped, excepted_step onward before.1 before.2 stepped⟩)
    ⟨coherent, excepted⟩ (guarded_forall fun a member _ => onward a member) ran
  have listed : (t.pc k).listed = true := by
    cases exception.2 with
    | found _ _ asks => exact asking_listed asks
    | stored _ _ held =>
      have handling := after.handling
      simp only [Handling, held] at handling
      rw [handling.2.1]; rfl
    | woken _ place => rcases place with place | place <;> rw [place] <;> rfl
    | returned _ place => rw [place]; rfl
  obtain ⟨record, member, same⟩ := (table_iff after (t.call k)).mpr ⟨rfl, listed⟩
  exact gone record member (by rw [same, State.call, kept.ids]; rfl)

/-- `HashAdd` of an id that is outstanding does not put the call into the table. -/
private theorem register_traces (coherent : Coherent s) {held : OutstandingCall}
    (found : hashFind s.connection.outstandingCalls ⟨s.ids k, 0⟩ = some held) (stepped : step s (.register k) = some t) :
    ¬ NoTrace t := by
  intro noTrace
  obtain ⟨place, rfl⟩ := register_cases stepped
  obtain ⟨S, refines, same⟩ := coherent.table
  obtain ⟨outstanding, id⟩ := (find_iff coherent (s.ids k) held).mp found
  have holds : S.Holds (s.call k) := by
    refine ⟨held, (same held).mpr outstanding, ?_⟩
    show s.ids k - held.id = 0
    rw [id]
    grind
  have kept := add_refines refines (s.call k) k
  rw [Reps.add_held holds] at kept
  have entry := (noTrace.exact (s.call k)).mpr ⟨k, rfl, by simp [inProgress]⟩
  have listed := ((same _).mp ((kept.same _).mpr entry)).2
  rw [State.call, place] at listed
  cases listed

/-- A call whose request is not sent has no end. -/
private theorem send_traces (coherent : Coherent s) {error : Text} (stepped : step s (.send k (some error)) = some t) :
    ¬ NoTrace t := by
  intro noTrace
  obtain ⟨place, rfl⟩ := send_cases stepped
  have unasked : s.ids k ∉ s.requests := by
    intro asked
    obtain ⟨j, same, asks⟩ := coherent.asked _ asked
    obtain rfl := distinct coherent (asking_listed asks) (by rw [place]; rfl) same
    rw [place] at asks
    cases asks
  have unhandled : ¬ InHand s k := by
    intro inHand
    have asks := inHand_asking coherent inHand
    rw [place] at asks
    cases asks
  obtain ⟨out, ⟨labels, u, onward, ran, back, _⟩, _⟩ := noTrace.ends k (.inl ⟨by simp [Pc.asking], unasked⟩)
  refine forsaken_stays ?_ out ⟨labels, u, onward, ran, back⟩
  exact ⟨by simp [Pc.asking], unhandled⟩

/-- A call whose request is answered by an exception stays in the table. -/
private theorem receive_traces (coherent : Coherent s) {id : Int32} {text : Text} (asked : id ∈ s.requests)
    (stepped : step s (.receive id (.error text)) = some t) : ¬ NoTrace t := by
  intro noTrace
  have after := step_coherent s (.receive id (.error text)) t coherent trivial stepped
  rcases receive_cases coherent stepped with ⟨_, ⟨unasked, _, _⟩ | ⟨k, isException, message, _, rfl, asks, made, rfl⟩⟩
  · exact unasked asked
  · obtain rfl : isException = true := by
      cases isException with
      | true => rfl
      | false => cases formed : vsnprintfBare errBuffSize text <;> simp [makeAnswer, answerOf, formed] at made
    obtain ⟨out, leaves, _⟩ := noTrace.ends k (.inl ⟨asks, coherent.once.not_mem_erase⟩)
    exact excepted_stays after (.found message (s.ids k) asks rfl) out leaves

/-- A step that is not clean leaves an entry behind, or a call without an end. -/
theorem step_traces (s : State size) (a : Label) (t : State size) (tidy : Tidy s) (unclean : ¬ Clean s a)
    (stepped : step s a = some t) : ¬ NoTrace t := by
  cases a with
  | register k =>
    obtain ⟨held, found⟩ := Option.ne_none_iff_exists'.mp unclean
    exact register_traces tidy.coherent found stepped
  | send k error =>
    obtain ⟨text, rfl⟩ := Option.ne_none_iff_exists'.mp unclean
    exact send_traces tidy.coherent stepped
  | receive id reply =>
    cases reply with
    | result text => exact absurd trivial unclean
    | error text => exact receive_traces tidy.coherent (not_not.mp unclean) stepped
  | _ => exact absurd trivial unclean

end

/-- The calls of a connection leave no trace, in every state that a run passes, exactly
    when each request is sent and answered by a result, and no id is used while it is
    outstanding. -/
theorem finished_no_trace_iff (first protocolVersion : Int32) (tcpConnection : Bool) {labels : List Label} {t : State size}
    (ran : run step (initial size first protocolVersion tcpConnection) labels = some t) :
    Visits step NoTrace (initial size first protocolVersion tcpConnection) labels ↔
      Guarded step Clean (initial size first protocolVersion tcpConnection) labels :=
  visits_iff_guarded (fun s a t _ tidy clean stepped => step_tidy s a t tidy clean stepped)
    (fun _ tidy => tidy_noTrace tidy) (fun s a t _ tidy unclean stepped => step_traces s a t tidy unclean stepped)
    (guarded_forall fun _ _ _ => trivial)
    ⟨initial_coherent first protocolVersion tcpConnection, nofun⟩ ran

theorem finished_no_trace_iff_request :
    Visits step NoTrace (initial 31 0 (-1) true) (request none ++ [.receive 0 (.result none), .store, .broadcast]) ↔
      Guarded step Clean (initial 31 0 (-1) true) (request none ++ [.receive 0 (.result none), .store, .broadcast]) := by
  have ran : run step (initial 31 0 (-1) true)
    (request none ++ [.receive 0 (.result none), .store, .broadcast]) = some _ := rfl
  exact finished_no_trace_iff 0 (-1) true ran

/-- A call that comes back with an exception, and one with an error of `sock_send`. -/
theorem finished_leaves_trace :
    (∃ t, run step (initial 31 0 (-1) true) (request none ++ [.receive 0 (.error (lit "x")), .store, .broadcast, .resume 0,
      .finish 0]) = some t ∧ t.pc 0 = .returned (.exception (lit "x")) ∧ ¬ NoTrace t) ∧
    ∃ t, run step (initial 31 0 (-1) true) (request (some (lit "closed"))) = some t ∧ ¬ NoTrace t := by
  constructor
  · refine ⟨_, rfl, rfl, fun noTrace => ?_⟩
    obtain ⟨k, same, progress⟩ := (noTrace.exact ⟨0, 0⟩).mp ⟨⟨0, 0, 0⟩, by decide, rfl⟩
    obtain rfl : 0 = k := congrArg OutstandingCall.address same
    exact absurd progress (by decide)
  · refine ⟨_, rfl, fun noTrace => ?_⟩
    obtain ⟨out, ⟨labels, u, onward, ran, back, _⟩, _⟩ := noTrace.ends 0 (.inl ⟨rfl, List.not_mem_nil⟩)
    exact forsaken_stays ⟨rfl, id⟩ out ⟨labels, u, onward, ran, back⟩

end VoxiUtil.TextRpcEndings
