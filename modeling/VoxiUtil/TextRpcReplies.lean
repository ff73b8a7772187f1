import VoxiUtil.TextRpcCalls

/-!
Replies reach their callers. Over all runs of concurrent calls, each reply to a
request goes to the one call with its id and comes out of it as it was sent, unless
it is an exception whose text `ErrNew`, which takes it for a format, does not keep.
-/
namespace VoxiUtil.TextRpcReplies
open VoxiUtil.CString VoxiUtil.Hash VoxiUtil.HashSet VoxiUtil.Runs VoxiUtil.TextRpc VoxiUtil.TextRpcCalls
open VoxiUtil.Err (errBuffSize)
variable {size : Nat} [NeZero size]

/-- Requests are sent, and fewer than 2^32 calls take an id. -/
def Premise (s : State size) : Label → Prop
  | .take => s.issued + 1 < 2 ^ 32
  | .send _ error => error = none
  | _ => True

/-- An exception that answers a request has no '%' in its text and fits the buffer. -/
def PlainException (s : State size) : Label → Prop
  | .receive id (.error text) => id ∈ s.requests → 37 ∉ text ∧ text.length < errBuffSize
  | _ => True

/-- The call is numbered and has the id. -/
def Names (s : State size) (id : Int32) (k : Nat) : Prop := k < s.issued ∧ s.ids k = id

/-- What the callers of a connection rely on. -/
structure RepliesMatched (s : State size) : Prop where
  /-- No two entries of the table share an id. -/
  separate : (records s.connection.outstandingCalls).Pairwise (fun a b => a.data.id ≠ b.data.id)
  /-- A call that is back has the payload of a reply with its own id. -/
  own : ∀ k out, s.pc k = .returned out →
    ∃ reply, (s.ids k, reply) ∈ s.received ∧ out = outcome none (payload reply)
  /-- No two replies have one id, and each is for one call, which comes back with it. -/
  once : (s.received.map Prod.fst).Nodup
  given : ∀ p ∈ s.received, ∃ k, Names s p.1 k ∧ (∀ j, Names s p.1 j → j = k) ∧
    Returns s k (outcome none (payload p.2))
  /-- A reply that is still to come will find its call in the table. -/
  expected : ∀ id ∈ s.requests, ∃ k, Names s id k ∧ (s.pc k).asking = true ∧
    hashFind s.connection.outstandingCalls ⟨id, 0⟩ = some (s.call k)
  /-- A reply with another id changes nothing. -/
  stray : ∀ id reply, s.receiver = .idle → hashFind s.connection.outstandingCalls ⟨id, 0⟩ = none →
    step s (.receive id reply) = some s

/-- The reply has woken the call. -/
def replied : Pc → Bool
  | .woken | .resumed | .returned _ => true
  | _ => false

/-- The reply of the call was received. -/
def Served (s : State size) (k : Nat) : Prop := InHand s k ∨ replied (s.pc k) = true

/-- The invariant of the replies on top of that of the calls. -/
structure Matched (first : Int32) (s : State size) : Prop where
  coherent : Coherent s
  few : s.issued < 2 ^ 32
  next : s.nextCallId = first + Int32.ofNat s.issued
  numbered : ∀ k < s.issued, s.ids k = first + Int32.ofNat k
  once : (s.received.map Prod.fst).Nodup
  served : ∀ p ∈ s.received, ∃ k, Names s p.1 k ∧ Served s k
  plain : ∀ p ∈ s.received, answerOf p.2 = .ok (payload p.2)

section
variable {first : Int32} {s t : State size} {k : Nat}

/-- An `int` counter that has counted less than 2^32 times has not come back to a value. -/
theorem count_injective {j k : Nat} (left : j < 2 ^ 32) (right : k < 2 ^ 32)
    (same : first + Int32.ofNat j = first + Int32.ofNat k) : j = k := by
  have counts : Int32.ofNat j = Int32.ofNat k := by grind
  have bits : BitVec.ofNat 32 j = BitVec.ofNat 32 k := by simpa using congrArg Int32.toBitVec counts
  have values := congrArg BitVec.toNat bits
  rwa [BitVec.toNat_ofNat, BitVec.toNat_ofNat, Nat.mod_eq_of_lt left, Nat.mod_eq_of_lt right] at values

theorem names_unique (matched : Matched first s) {id : Int32} {j k : Nat} (left : Names s id j) (right : Names s id k) :
    j = k := by
  have few := matched.few
  have same : first + Int32.ofNat j = first + Int32.ofNat k := by
    rw [← matched.numbered j left.1, ← matched.numbered k right.1, left.2, right.2]
  exact count_injective (by have := left.1; omega) (by have := right.1; omega) same

theorem issued_of_begun (coherent : Coherent s) (begun : s.pc k ≠ .outside) : k < s.issued := by
  by_contra later
  exact begun (coherent.unborn k (Nat.le_of_not_lt later))

theorem asking_issued (coherent : Coherent s) (asks : (s.pc k).asking = true) : k < s.issued :=
  issued_of_begun coherent fun outside => by rw [outside] at asks; cases asks

/-- A call whose reply was received stays so. -/
private theorem served_step {a : Label} (coherent : Coherent s) (served : Served s k) (stepped : step s a = some t) :
    Served t k := by
  cases a with
  | take =>
    cases stepped
    refine served.imp id fun before => pc_update before fun outside => ?_
    rw [coherent.unborn s.issued (Nat.le_refl _)] at outside
    cases outside
  | register j =>
    obtain ⟨place, rfl⟩ := register_cases stepped
    exact served.imp id fun before => pc_update before fun held => by simp [place, replied] at held
  | lock j =>
    obtain ⟨place, rfl⟩ := lock_cases stepped
    exact served.imp id fun before => pc_update before fun held => by simp [place, replied] at held
  | send j error =>
    obtain ⟨place, rfl⟩ := send_cases stepped
    exact served.imp id fun before => pc_update before fun held => by simp [place, replied] at held
  | wait j =>
    obtain ⟨place, rfl⟩ := wait_cases stepped
    exact served.imp id fun before => pc_update before fun held => by simp [place, replied] at held
  | resume j =>
    obtain ⟨_, rfl⟩ := resume_cases stepped
    exact served.imp id fun before => pc_update before fun _ => rfl
  | finish j =>
    obtain ⟨_, _, _, _, rfl⟩ := finish_cases stepped
    exact served.imp id fun before => pc_update before fun _ => rfl
  | receive id reply =>
    rcases receive_cases coherent stepped with ⟨idle, ⟨_, _, rfl⟩ | ⟨_, _, _, _, _, _, _, rfl⟩⟩
    · exact served
    · exact .inr (served.resolve_left fun inHand => by simp [InHand, idle] at inHand)
  | store =>
    obtain ⟨call, _, _, _, found, _, _, rfl⟩ := store_cases stepped
    exact served.imp (fun inHand => by simpa [InHand, found] using inHand) id
  | broadcast =>
    obtain ⟨call, stored, _, rfl⟩ := broadcast_wakes coherent stepped
    rcases served with inHand | before
    · have own : call.address = k := by simpa [InHand, stored] using inHand
      exact .inr (by simp [own, replied])
    · exact .inr (pc_update before fun _ => rfl)

/-- Steps that leave ids and replies alone keep the invariant of the replies. -/
private theorem quiet_matched {a : Label} (matched : Matched first s) (sound : Sound s a) (quiet : a.quiet = true)
    (stepped : step s a = some t) : Matched first t := by
  have kept := quiet_kept quiet stepped
  refine ⟨step_coherent s a t matched.coherent sound stepped, ?_, ?_, ?_, ?_, fun p member => ?_, ?_⟩
  · rw [kept.issued]; exact matched.few
  · rw [kept.nextCallId, kept.issued]; exact matched.next
  · rw [kept.issued, kept.ids]; exact matched.numbered
  · rw [kept.received]; exact matched.once
  · rw [kept.received] at member
    obtain ⟨k, names, served⟩ := matched.served p member
    refine ⟨k, ?_, served_step matched.coherent served stepped⟩
    rwa [Names, kept.issued, kept.ids]
  · rw [kept.received]; exact matched.plain

private theorem take_matched (matched : Matched first s) (few : s.issued + 1 < 2 ^ 32) (stepped : step s .take = some t) :
    Matched first t := by
  have after := step_coherent s .take t matched.coherent trivial stepped
  have served : ∀ k, Served s k → Served t k := fun k held => served_step matched.coherent held stepped
  cases stepped
  refine ⟨after, few, ?_, fun k earlier => ?_, matched.once, fun p member => ?_, matched.plain⟩
  · show s.nextCallId + 1 = first + Int32.ofNat (s.issued + 1)
    rw [matched.next, Int32.ofNat_add]
    grind
  · by_cases own : k = s.issued
    · simp [own, matched.next]
    · have before : k < s.issued := by simp only at earlier; omega
      simpa [own] using matched.numbered k before
  · obtain ⟨k, names, held⟩ := matched.served p member
    have past : k ≠ s.issued := Nat.ne_of_lt names.1
    exact ⟨k, ⟨Nat.lt_succ_of_lt names.1, by simpa [past] using names.2⟩, served k held⟩

private theorem send_matched (matched : Matched first s) {error : Option Text} (sent : error = none)
    (stepped : step s (.send k error) = some t) : Matched first t := by
  have after := step_coherent s (.send k error) t matched.coherent sent stepped
  have served : ∀ k, Served s k → Served t k := fun k held => served_step matched.coherent held stepped
  obtain ⟨_, rfl⟩ := send_cases stepped
  refine ⟨after, matched.few, matched.next, matched.numbered, matched.once, fun p member => ?_, matched.plain⟩
  obtain ⟨k, names, held⟩ := matched.served p member
  exact ⟨k, names, served k held⟩

/-- The reply to a request is the first one with its id. -/
private theorem asked_fresh (matched : Matched first s) (idle : s.receiver = .idle) (asks : (s.pc k).asking = true) :
    s.ids k ∉ s.received.map Prod.fst := by
  intro before
  obtain ⟨p, member, same⟩ := List.mem_map.mp before
  obtain ⟨j, names, served⟩ := matched.served p member
  obtain rfl := names_unique matched names ⟨asking_issued matched.coherent asks, same.symm⟩
  rcases served with inHand | woken
  · simp [InHand, idle] at inHand
  · cases place : s.pc j <;> simp_all [Pc.asking, replied]

private theorem receive_matched (matched : Matched first s) {id : Int32} {reply : Dispatched}
    (kept : id ∈ s.requests → answerOf reply = .ok (payload reply)) (stepped : step s (.receive id reply) = some t) :
    Matched first t := by
  have after := step_coherent s (.receive id reply) t matched.coherent trivial stepped
  have served : ∀ k, Served s k → Served t k := fun k held => served_step matched.coherent held stepped
  rcases receive_cases matched.coherent stepped with ⟨idle, ⟨_, _, rfl⟩ | ⟨k, _, message, asked, rfl, asks, _, rfl⟩⟩
  · exact matched
  · have issued := asking_issued matched.coherent asks
    refine ⟨after, matched.few, matched.next, matched.numbered, ?_, fun p member => ?_, fun p member => ?_⟩
    · exact List.nodup_cons.mpr ⟨asked_fresh matched idle asks, matched.once⟩
    · rcases List.mem_cons.mp member with rfl | earlier
      · exact ⟨k, ⟨issued, rfl⟩, .inl rfl⟩
      · obtain ⟨j, names, held⟩ := matched.served p earlier
        exact ⟨j, names, served j held⟩
    · rcases List.mem_cons.mp member with rfl | earlier
      · exact kept asked
      · exact matched.plain p earlier

/-- An id that is taken once more is not yet in the table. -/
private theorem register_fresh (matched : Matched first s) (place : s.pc k = .taken) : Sound s (.register k) := by
  refine Option.eq_none_iff_forall_ne_some.mpr fun call found => ?_
  obtain ⟨⟨id, listed⟩, same⟩ := (find_iff matched.coherent (s.ids k) call).mp found
  have begun : s.pc call.address ≠ .outside := fun outside => by rw [outside] at listed; cases listed
  have other : s.pc k ≠ .outside := by simp [place]
  have own := names_unique matched ⟨issued_of_begun matched.coherent begun, id.symm.trans same⟩
    ⟨issued_of_begun matched.coherent other, rfl⟩
  rw [own, place] at listed
  cases listed

private theorem plain_kept {id : Int32} {reply : Dispatched} (plain : PlainException s (.receive id reply))
    (asked : id ∈ s.requests) : answerOf reply = .ok (payload reply) := by
  cases reply with
  | result text => rfl
  | error text => exact (exception_same text).mpr (plain asked)

theorem step_matched (s : State size) (a : Label) (t : State size) (premise : Premise s a) (matched : Matched first s)
    (plain : PlainException s a) (stepped : step s a = some t) : Matched first t := by
  cases a with
  | take => exact take_matched matched premise stepped
  | send k error => exact send_matched matched premise stepped
  | receive id reply => exact receive_matched matched (plain_kept plain) stepped
  | register k => exact quiet_matched matched (register_fresh matched (register_cases stepped).1) rfl stepped
  | _ =>
    refine quiet_matched matched ?_ rfl stepped
    trivial

theorem initial_matched (first protocolVersion : Int32) (tcpConnection : Bool) :
    Matched first (initial size first protocolVersion tcpConnection) := by
  refine ⟨initial_coherent first protocolVersion tcpConnection, by simp [initial], ?_, ?_, List.nodup_nil, ?_, ?_⟩
  · show first = first + 0
    grind
  · intro k earlier; exact absurd earlier (Nat.not_lt_zero k)
  · intro p member; cases member
  · intro p member; cases member

/-- A call comes back with nothing but the reply with its id. -/
private theorem returns_payload (matched : Matched first s) {id : Int32} {reply : Dispatched} {out : Outcome}
    (received : (id, reply) ∈ s.received) (names : Names s id k) (back : Returns s k out) :
    out = outcome none (payload reply) := by
  obtain ⟨other, answer, got, made, rfl⟩ := returns_reply matched.coherent back
  have same := List.inj_on_of_nodup_map matched.once received got names.2.symm
  obtain rfl : reply = other := congrArg Prod.snd same
  have owed := matched.plain _ received
  rw [made] at owed
  rw [Except.ok.inj owed, matched.coherent.silent]

theorem matched_replies (matched : Matched first s) : RepliesMatched s := by
  have coherent := matched.coherent
  refine ⟨?_, fun k out back => ?_, matched.once, fun p member => ?_, fun id asked => ?_, fun id reply idle absent => ?_⟩
  · obtain ⟨S, refines, _⟩ := coherent.table
    refine refines.wellFormed.separate.imp fun {a b} differ same => differ ?_
    show b.data.id - a.data.id = 0
    grind
  · obtain ⟨reply, answer, got, made, rfl⟩ := (coherent.standing k).returned out back
    refine ⟨reply, got, ?_⟩
    have owed := matched.plain _ got
    rw [made] at owed
    rw [Except.ok.inj owed, coherent.silent]
  · obtain ⟨k, names, served⟩ := matched.served p member
    refine ⟨k, names, fun j other => names_unique matched other names, ?_⟩
    have back : ∃ out, Returns s k out := by
      have formed : ∀ p ∈ s.received, ∃ answer, answerOf p.2 = .ok answer := fun p got => ⟨_, matched.plain p got⟩
      cases place : s.pc k with
      | woken => exact replied_returns coherent formed (.inr (.inl place))
      | resumed => exact replied_returns coherent formed (.inr (.inr place))
      | returned out => exact ⟨out, [], s, nofun, rfl, place⟩
      | _ =>
        have inHand := served.resolve_right (by simp [place, replied])
        exact replied_returns coherent formed (.inl inHand)
    obtain ⟨out, back⟩ := back
    rwa [← returns_payload matched member names back]
  · obtain ⟨k, rfl, asks⟩ := coherent.asked id asked
    exact ⟨k, ⟨asking_issued coherent asks, rfl⟩, asks, asking_found coherent asks⟩
  · have unasked : id ∉ s.requests := by
      intro asked
      obtain ⟨k, rfl, asks⟩ := coherent.asked id asked
      rw [asking_found coherent asks] at absent
      cases absent
    obtain ⟨message, parsed, _⟩ := replyLine_parsed s.connection.outstandingCalls id reply
    simp [step, receiveStep, parsed, idle, absent, unasked]

/-- An exception that `ErrNew` changes does not reach its call as it is. -/
theorem changed_unmatched (coherent : Coherent s) {id : Int32} {reply : Dispatched} (received : (id, reply) ∈ s.received)
    (changed : answerOf reply ≠ .ok (payload reply)) : ¬ RepliesMatched s := by
  intro replies
  obtain ⟨k, names, _, back⟩ := replies.given _ received
  obtain ⟨other, answer, got, made, same⟩ := returns_reply coherent back
  obtain rfl : reply = other :=
    congrArg Prod.snd (List.inj_on_of_nodup_map replies.once received got names.2.symm)
  have answers : payload reply = answer := by
    rw [coherent.silent] at same
    revert same
    cases payload reply <;> cases answer <;> simp [outcome]
  exact changed (answers ▸ made)

theorem step_unmatched (s : State size) (a : Label) (t : State size) (matched : Matched first s)
    (changes : ¬ PlainException s a) (stepped : step s a = some t) : ¬ RepliesMatched t := by
  cases a with
  | receive id reply =>
    cases reply with
    | result text => exact absurd trivial changes
    | error text =>
      simp only [PlainException, Classical.not_imp, ← exception_same] at changes
      have after := step_coherent s (.receive id (.error text)) t matched.coherent trivial stepped
      rcases receive_cases matched.coherent stepped with ⟨_, ⟨unasked, _, _⟩ | ⟨k, _, _, _, _, _, _, rfl⟩⟩
      · exact absurd changes.1 unasked
      · exact changed_unmatched after List.mem_cons_self changes.2
  | _ => exact absurd trivial changes

end

/-- Replies reach their own callers in every state that a run of concurrent calls
    passes, exactly when `ErrNew` keeps the text of each exception. -/
theorem replies_matched_iff (first protocolVersion : Int32) (tcpConnection : Bool) {labels : List Label} {t : State size}
    (premises : Guarded step Premise (initial size first protocolVersion tcpConnection) labels)
    (ran : run step (initial size first protocolVersion tcpConnection) labels = some t) :
    Visits step RepliesMatched (initial size first protocolVersion tcpConnection) labels ↔
      Guarded step PlainException (initial size first protocolVersion tcpConnection) labels :=
  visits_iff_guarded (fun s a t premise matched plain stepped => step_matched s a t premise matched plain stepped)
    (fun _ matched => matched_replies matched)
    (fun s a t _ matched changes stepped => step_unmatched s a t matched changes stepped) premises
    (initial_matched first protocolVersion tcpConnection) ran

/-- What follows on a reply to the first call of a server. -/
def answered (reply : Dispatched) : List Label := [.receive 0 reply, .store, .broadcast, .resume 0, .finish 0]

theorem replies_matched_iff_request :
    Visits step RepliesMatched (initial 31 0 (-1) true) (request none ++ answered (.result (some (lit "x")))) ↔
      Guarded step PlainException (initial 31 0 (-1) true) (request none ++ answered (.result (some (lit "x")))) := by
  have premises : Guarded step Premise (initial 31 0 (-1) true) (request none ++ answered (.result (some (lit "x")))) :=
    ⟨show 0 + 1 < 2 ^ 32 by decide, fun _ _ => guarded_forall (by simp [answered, Premise])⟩
  have ran : run step (initial 31 0 (-1) true) (request none ++ answered (.result (some (lit "x")))) = some _ := rfl
  exact replies_matched_iff 0 (-1) true premises ran

/-- An error with a blank in its description, as `ErrToString` of the peer writes it. -/
def notFound : Dispatched := .error (lit "Error( 4 1 'not%20found' NULL )")

theorem replies_unmatched : ∃ t, Guarded step Premise (initial 31 0 (-1) true) (request none ++ [.receive 0 notFound]) ∧
    run step (initial 31 0 (-1) true) (request none ++ [.receive 0 notFound]) = some t ∧ ¬ RepliesMatched t := by
  have fewer : 0 + 1 < 2 ^ 32 := by decide
  have premises : Guarded step Premise (initial 31 0 (-1) true) (request none ++ [.receive 0 notFound]) :=
    ⟨fewer, fun _ _ => guarded_forall (by simp [Premise])⟩
  have quiet : Guarded step (fun s a => Premise s a ∧ PlainException s a) (initial 31 0 (-1) true) (request none) :=
    ⟨⟨fewer, trivial⟩, fun _ _ => guarded_forall (by simp [Premise, PlainException])⟩
  have asked : run step (initial 31 0 (-1) true) (request none) = some _ := rfl
  have matched := guarded_run (Matched 0) (fun s a t before both stepped => step_matched s a t both.1 before both.2 stepped)
    (initial_matched 0 (-1) true) quiet asked
  refine ⟨_, premises, rfl, step_unmatched _ (.receive 0 notFound) _ matched (fun plain => ?_) rfl⟩
  exact (plain (by decide)).1 (by decide)

end VoxiUtil.TextRpcReplies
