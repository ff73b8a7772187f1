import VoxiUtil.TextRpcDialog

/-!
Two parties that call each other serve every call. The ids that a caller has asked for
are always spread over the places on the way, from the request in flight to the reply in
flight, each in one of them; over any interleaving a call is dispatched at most once, with
its own text, and comes back with what was given for it.
-/
namespace VoxiUtil.TextRpcServed
open VoxiUtil.CString VoxiUtil.Stdio VoxiUtil.Sock VoxiUtil.Hash VoxiUtil.Runs VoxiUtil.TextRpc
open VoxiUtil.TextRpcLines VoxiUtil.TextRpcFraming VoxiUtil.TextRpcCalls VoxiUtil.TextRpcReplies VoxiUtil.TextRpcDialog
variable {size other : Nat} [NeZero size] [NeZero other]

/-- How often an id is at a place. -/
def held {α : Type} (place : List (Int32 × α)) (id : Int32) : Nat := (place.map Prod.fst).count id

section
variable {α : Type}

@[simp] theorem held_nil (id : Int32) : held ([] : List (Int32 × α)) id = 0 := rfl

@[simp] theorem held_cons (p : Int32 × α) (place : List (Int32 × α)) (id : Int32) :
    held (p :: place) id = held place id + if p.1 = id then 1 else 0 := by
  simp [held, List.count_cons]

@[simp] theorem held_append (place more : List (Int32 × α)) (id : Int32) :
    held (place ++ more) id = held place id + held more id := by
  simp [held]

theorem held_perm {place more : List (Int32 × α)} (same : place.Perm more) (id : Int32) : held place id = held more id :=
  (same.map Prod.fst).count_eq id

end

/-- The way of the calls of a party, with all that is at the places on it: the requests in
    flight, those that threads of the peer have read, the replies that these threads have to
    write, and the replies in flight. -/
structure Flow (texts : Nat → Text) (first : Int32) (s : State size) (asked started : List (Int32 × Text))
    (answers replies : List (Int32 × Dispatched)) (log : List (Int32 × Option Text × Dispatched)) : Prop where
  matched : Matched first s
  running : s.connection.protocolState = .running
  spread : ∀ id, s.requests.count id = held asked id + held started id + held answers id + held replies id
  once : ∀ id, held asked id + held started id + held log id ≤ 1
  settled : ∀ id, held log id = held answers id + held replies id + held s.received id
  asking : ∀ p ∈ asked ++ started, ∃ k, Names s p.1 k ∧ p.2 = texts k
  logged : ∀ e ∈ log, ∃ k, Names s e.1 k ∧ e.2.1 = some (texts k)
  recorded : ∀ p ∈ answers ++ replies ++ s.received, ∃ text, (p.1, text, p.2) ∈ log
  fits : ∀ p ∈ answers ++ replies, Deliverable p.1 p.2

section
variable {texts : Nat → Text} {first : Int32} {s t : State size} {asked started : List (Int32 × Text)}
variable {answers replies : List (Int32 × Dispatched)} {log : List (Int32 × Option Text × Dispatched)} {k : Nat}

/-- No step ends the connection. -/
theorem step_running {a : Label} (coherent : Coherent s) (running : s.connection.protocolState = .running)
    (stepped : step s a = some t) : t.connection.protocolState = .running := by
  cases a with
  | take => cases stepped; exact running
  | register k => obtain ⟨_, rfl⟩ := register_cases stepped; exact running
  | lock k => obtain ⟨_, rfl⟩ := lock_cases stepped; exact running
  | send k error => obtain ⟨_, rfl⟩ := send_cases stepped; exact running
  | wait k => obtain ⟨_, rfl⟩ := wait_cases stepped; exact running
  | receive id reply => rcases receive_cases coherent stepped with ⟨_, ⟨_, _, rfl⟩ | ⟨_, _, _, _, _, _, _, rfl⟩⟩ <;> exact running
  | store => obtain ⟨_, _, _, _, _, _, _, rfl⟩ := store_cases stepped; exact running
  | broadcast => obtain ⟨_, _, _, rfl⟩ := broadcast_wakes coherent stepped; exact running
  | resume k => obtain ⟨_, rfl⟩ := resume_cases stepped; exact running
  | finish k => obtain ⟨_, _, _, _, rfl⟩ := finish_cases stepped; exact running

/-- What a step of a call that is not on the wire leaves alone. -/
private theorem own_kept {a : Label} (own : onWire a = false) (stepped : step s a = some t) :
    t.requests = s.requests ∧ t.received = s.received ∧ ∀ id k, Names s id k → Names t id k := by
  cases a with
  | send k error => cases own
  | receive id reply => cases own
  | take =>
    cases stepped
    refine ⟨rfl, rfl, fun id k names => ⟨Nat.lt_succ_of_lt names.1, ?_⟩⟩
    simpa [Nat.ne_of_lt names.1] using names.2
  | _ =>
    have kept := quiet_kept (by rfl) stepped
    refine ⟨kept.requests, kept.received, fun id k names => ?_⟩
    rwa [Names, kept.issued, kept.ids]

theorem flow_own {a : Label} (flow : Flow texts first s asked started answers replies log) (own : onWire a = false)
    (premise : Premise s a) (stepped : step s a = some t) : Flow texts first t asked started answers replies log := by
  obtain ⟨requests, received, names⟩ := own_kept own stepped
  have plain : PlainException s a := by
    cases a with
    | receive id reply => cases own
    | _ => trivial
  refine ⟨step_matched s a t premise flow.matched plain stepped, step_running flow.matched.coherent flow.running stepped,
    ?_, flow.once, ?_, fun p member => ?_, fun e member => ?_, ?_, flow.fits⟩
  · rw [requests]; exact flow.spread
  · rw [received]; exact flow.settled
  · obtain ⟨k, named, text⟩ := flow.asking p member
    exact ⟨k, names p.1 k named, text⟩
  · obtain ⟨k, named, text⟩ := flow.logged e member
    exact ⟨k, names e.1 k named, text⟩
  · rw [received]; exact flow.recorded

/-- The reply of a call that has not sent its request was not received. -/
private theorem unsent_unreceived (matched : Matched first s) (place : s.pc k = .locked) : held s.received (s.ids k) = 0 := by
  refine List.count_eq_zero.mpr fun before => ?_
  obtain ⟨p, member, same⟩ := List.mem_map.mp before
  obtain ⟨j, names, served⟩ := matched.served p member
  have begun : s.pc k ≠ .outside := by simp [place]
  obtain rfl := names_unique matched names ⟨issued_of_begun matched.coherent begun, same.symm⟩
  rcases served with inHand | woken
  · have asks := inHand_asking matched.coherent inHand
    rw [place] at asks
    cases asks
  · rw [place] at woken
    cases woken

theorem flow_send (flow : Flow texts first s asked started answers replies log) (stepped : step s (.send k none) = some t) :
    Flow texts first t (asked ++ [(s.ids k, texts k)]) started answers replies log := by
  have matched := step_matched s (.send k none) t rfl flow.matched trivial stepped
  have running := step_running flow.matched.coherent flow.running stepped
  obtain ⟨place, rfl⟩ := send_cases stepped
  have fresh : s.requests.count (s.ids k) = 0 :=
    List.count_eq_zero.mpr (List.nodup_cons.mp matched.coherent.once).1
  have unreceived := unsent_unreceived flow.matched place
  have begun : s.pc k ≠ .outside := by simp [place]
  have names : Names s (s.ids k) k := ⟨issued_of_begun flow.matched.coherent begun, rfl⟩
  refine ⟨matched, running, fun id => ?_, fun id => ?_, flow.settled, fun p member => ?_, flow.logged, flow.recorded,
    flow.fits⟩
  · have before := flow.spread id
    simp only [if_true, List.count_cons, held_append, held_cons, held_nil, beq_iff_eq]
    omega
  · have before := flow.once id
    have spread := flow.spread (s.ids k)
    have settled := flow.settled (s.ids k)
    simp only [held_append, held_cons, held_nil]
    split
    · rename_i same
      subst same
      omega
    · omega
  · rw [List.append_assoc, List.mem_append, List.mem_append, List.mem_singleton] at member
    rcases member with before | rfl | before
    · exact flow.asking p (List.mem_append_left _ before)
    · exact ⟨k, names, rfl⟩
    · exact flow.asking p (List.mem_append_right _ before)

theorem flow_accept {p : Int32 × Text} (flow : Flow texts first s (p :: asked) started answers replies log) :
    Flow texts first s asked (p :: started) answers replies log := by
  refine ⟨flow.matched, flow.running, fun id => ?_, fun id => ?_, flow.settled, fun q member => ?_, flow.logged,
    flow.recorded, flow.fits⟩
  · have before := flow.spread id
    simp only [held_cons] at before ⊢
    omega
  · have before := flow.once id
    simp only [held_cons] at before ⊢
    omega
  · exact flow.asking q (List.perm_middle.mem_iff.mp member)

theorem flow_dispatch {p : Int32 × Text} {reply : Dispatched} (deliverable : Deliverable p.1 reply)
    (flow : Flow texts first s asked (p :: started) answers replies log) :
    Flow texts first s asked started ((p.1, reply) :: answers) replies ((p.1, some p.2, reply) :: log) := by
  refine ⟨flow.matched, flow.running, fun id => ?_, fun id => ?_, fun id => ?_, fun q member => ?_, fun e member => ?_,
    fun q member => ?_, fun q member => ?_⟩
  · have before := flow.spread id
    simp only [held_cons] at before ⊢
    omega
  · have before := flow.once id
    simp only [held_cons] at before ⊢
    omega
  · have before := flow.settled id
    simp only [held_cons] at before ⊢
    omega
  · exact flow.asking q (List.perm_middle.mem_iff.mpr (List.mem_cons_of_mem p member))
  · rcases List.mem_cons.mp member with rfl | before
    · obtain ⟨k, names, same⟩ := flow.asking p (by simp)
      exact ⟨k, names, congrArg some same⟩
    · exact flow.logged e before
  · rcases List.mem_cons.mp member with rfl | before
    · exact ⟨some p.2, List.mem_cons_self⟩
    · obtain ⟨text, recorded⟩ := flow.recorded q before
      exact ⟨text, List.mem_cons_of_mem _ recorded⟩
  · rcases List.mem_cons.mp member with rfl | before
    · exact deliverable
    · exact flow.fits q before

theorem flow_answer {p : Int32 × Dispatched} (flow : Flow texts first s asked started (p :: answers) replies log) :
    Flow texts first s asked started answers (replies ++ [p]) log := by
  have moved : ∀ q, q ∈ answers ++ (replies ++ [p]) ↔ q ∈ p :: answers ++ replies := by
    intro q
    simp only [List.mem_append, List.mem_cons, List.not_mem_nil, or_false]
    tauto
  refine ⟨flow.matched, flow.running, fun id => ?_, flow.once, fun id => ?_, flow.asking, flow.logged,
    fun q member => ?_, fun q member => flow.fits q ((moved q).mp member)⟩
  · have before := flow.spread id
    simp only [held_cons, held_append, held_nil] at before ⊢
    omega
  · have before := flow.settled id
    simp only [held_cons, held_append, held_nil] at before ⊢
    omega
  · refine flow.recorded q ?_
    rw [List.mem_append] at member ⊢
    exact member.imp_left (moved q).mp

/-- A reply that can be delivered is one that `ErrNew` keeps. -/
private theorem deliverable_plain {id : Int32} {reply : Dispatched} (deliverable : Deliverable id reply) :
    PlainException s (.receive id reply) := by
  cases reply with
  | result text => trivial
  | error text => exact fun _ => deliverable.2.2

theorem flow_settle {id : Int32} {reply : Dispatched}
    (flow : Flow texts first s asked started answers ((id, reply) :: replies) log)
    (stepped : step s (.receive id reply) = some t) : Flow texts first t asked started answers replies log := by
  have deliverable : Deliverable id reply := flow.fits (id, reply) (by simp)
  have matched := step_matched s (.receive id reply) t trivial flow.matched (deliverable_plain deliverable) stepped
  have running := step_running flow.matched.coherent flow.running stepped
  have asks : id ∈ s.requests := by
    have spread := flow.spread id
    simp only [held_cons, if_true] at spread
    exact List.count_pos_iff.mp (by omega)
  rcases receive_cases flow.matched.coherent stepped with ⟨_, ⟨unasked, _, _⟩ | ⟨_, _, _, _, rfl, _, _, rfl⟩⟩
  · exact absurd asks unasked
  refine ⟨matched, running, fun id => ?_, flow.once, fun id => ?_, flow.asking, flow.logged, fun q member => ?_,
    fun q member => ?_⟩
  · have before := flow.spread id
    have erased := (List.perm_cons_erase asks).count_eq id
    simp only [held_cons] at before
    simp only [List.count_cons, beq_iff_eq] at erased
    show (s.requests.erase _).count id = _
    omega
  · have before := flow.settled id
    simp only [held_cons] at before ⊢
    omega
  · refine flow.recorded q ?_
    simp only [List.mem_append, List.mem_cons] at member ⊢
    tauto
  · exact flow.fits q (List.perm_middle.mem_iff.mpr (List.mem_cons_of_mem _ member))

/-- Only what is at a place matters, and not its order. -/
theorem flow_perm {begun : List (Int32 × Text)} {due : List (Int32 × Dispatched)} (threads : started.Perm begun)
    (given : answers.Perm due) (flow : Flow texts first s asked started answers replies log) :
    Flow texts first s asked begun due replies log := by
  refine ⟨flow.matched, flow.running, fun id => ?_, fun id => ?_, fun id => ?_, fun p member => flow.asking p ?_,
    flow.logged, fun p member => flow.recorded p ?_, fun p member => flow.fits p ?_⟩
  · rw [flow.spread id, held_perm threads, held_perm given]
  · rw [← held_perm threads]; exact flow.once id
  · rw [← held_perm given]; exact flow.settled id
  · exact (threads.append_left asked).mem_iff.mpr member
  · exact ((given.append_right replies).append_right s.received).mem_iff.mpr member
  · exact (given.append_right replies).mem_iff.mpr member

theorem flow_start (texts : Nat → Text) (first protocolVersion : Int32) :
    Flow texts first (initial size first protocolVersion true) [] [] [] [] [] := by
  refine ⟨initial_matched first protocolVersion true, rfl, fun id => rfl, fun id => by simp, fun id => rfl, ?_, ?_, ?_, ?_⟩ <;>
    simp [initial]

/-- A call that has sent its request waits for a reply on the way, or its reply was received. -/
theorem flow_received (flow : Flow texts first s asked started answers replies log)
    (sent : (s.pc k).asking = true ∨ replied (s.pc k) = true) (arrived : s.ids k ∉ s.requests) :
    ∃ reply, (s.ids k, reply) ∈ s.received := by
  have coherent := flow.matched.coherent
  rcases sent with asks | back
  · have inHand := ((coherent.standing k).asking asks).resolve_left arrived
    have handling := coherent.handling
    unfold InHand at inHand
    split at inHand
    · cases inHand
    · rename_i call _ _ found
      subst inHand
      simp only [Handling, found] at handling
      obtain ⟨id, _, _, reply, got, _⟩ := handling
      exact ⟨reply, id ▸ got⟩
    · rename_i call stored
      subst inHand
      simp only [Handling, stored] at handling
      obtain ⟨_, _, _, reply, _, got, _⟩ := handling
      exact ⟨reply, got⟩
  · cases place : s.pc k with
    | woken =>
      obtain ⟨reply, _, got, _⟩ := (coherent.standing k).answered (.inl place)
      exact ⟨reply, got⟩
    | resumed =>
      obtain ⟨reply, _, got, _⟩ := (coherent.standing k).answered (.inr place)
      exact ⟨reply, got⟩
    | returned out =>
      obtain ⟨reply, _, got, _⟩ := (coherent.standing k).returned out place
      exact ⟨reply, got⟩
    | _ => rw [place] at back; cases back

/-- What was received for a call was dispatched with its own text. -/
theorem flow_own_text (flow : Flow texts first s asked started answers replies log) (begun : s.pc k ≠ .outside)
    {reply : Dispatched} (received : (s.ids k, reply) ∈ s.received) : (s.ids k, some (texts k), reply) ∈ log := by
  obtain ⟨text, recorded⟩ := flow.recorded _ (List.mem_append_right _ received)
  obtain ⟨j, names, same⟩ := flow.logged _ recorded
  have own := names_unique flow.matched names ⟨issued_of_begun flow.matched.coherent begun, rfl⟩
  rwa [← own, ← same, own]

end

/-- What the thread of a request that was read gets. -/
def input (p : Int32 × Text) : Text := printInt p.1 ++ byte ' ' :: p.2

/-- Both ways between two parties, with the lines in flight and the threads as what they stand for. -/
structure Link (mine theirs : Nat → Text) (first second : Int32) (p : Party size) (o : Party other) (inward outward : List Item)
    (begun begunThere : List (Int32 × Text)) : Prop where
  fitIn : ∀ i ∈ inward, i.Fits
  fitOut : ∀ i ∈ outward, i.Fits
  threads : p.threads.Perm (begun.map input)
  threadsThere : o.threads.Perm (begunThere.map input)
  calling : Flow mine first p.calls (outward.filterMap Item.asks) begunThere o.answers (inward.filterMap Item.settles) o.log
  serving : Flow theirs second o.calls (inward.filterMap Item.asks) begun p.answers (outward.filterMap Item.settles) p.log

def Linked (mine theirs : Nat → Text) (first second : Int32) (p : Party size) (o : Party other) (toP toO : Text) : Prop :=
  ∃ inward outward begun begunThere, toP = stream inward ∧ toO = stream outward ∧
    Link mine theirs first second p o inward outward begun begunThere

section
variable {mine theirs : Nat → Text} {first second : Int32} {p : Party size} {o : Party other} {inward outward : List Item}
variable {begun begunThere : List (Int32 × Text)} {toP toO : Text} {latest : Int32}

theorem linked_swap (linked : Linked mine theirs first second p o toP toO) :
    Linked theirs mine second first o p toO toP := by
  obtain ⟨inward, outward, begun, begunThere, rfl, rfl, link⟩ := linked
  exact ⟨outward, inward, begunThere, begun, rfl, rfl, link.fitOut, link.fitIn, link.threadsThere, link.threads, link.serving,
    link.calling⟩

private theorem call_asks (items : List Item) (id : Int32) (text : Text) :
    (items ++ [Item.call id text]).filterMap Item.asks = items.filterMap Item.asks ++ [(id, text)] := by
  rw [List.filterMap_append]; rfl

private theorem back_asks (items : List Item) (id : Int32) (reply : Dispatched) :
    (items ++ [Item.back id reply]).filterMap Item.asks = items.filterMap Item.asks := by
  rw [List.filterMap_append]; exact List.append_nil _

private theorem call_settles (items : List Item) (id : Int32) (text : Text) :
    (items ++ [Item.call id text]).filterMap Item.settles = items.filterMap Item.settles := by
  rw [List.filterMap_append]; exact List.append_nil _

private theorem back_settles (items : List Item) (id : Int32) (reply : Dispatched) :
    (items ++ [Item.back id reply]).filterMap Item.settles = items.filterMap Item.settles ++ [(id, reply)] := by
  rw [List.filterMap_append]; rfl

private theorem own_linked {a : Label} {c : State size} (link : Link mine theirs first second p o inward outward begun begunThere)
    (own : onWire a = false) (premise : Premise p.calls a) (stepped : step p.calls a = some c) :
    Link mine theirs first second { p with calls := c } o inward outward begun begunThere :=
  ⟨link.fitIn, link.fitOut, link.threads, link.threadsThere, flow_own link.calling own premise stepped, link.serving⟩

private theorem request_linked {k : Nat} {c : State size} (link : Link mine theirs first second p o inward outward begun begunThere)
    (fits : Readable (byte 'C') (p.calls.ids k) (mine k) ∧ 0 ∉ mine k) (stepped : step p.calls (.send k none) = some c) :
    Link mine theirs first second { p with calls := c } o inward (outward ++ [.call (p.calls.ids k) (mine k)]) begun
      begunThere := by
  refine ⟨link.fitIn, fun i member => ?_, link.threads, link.threadsThere, ?_, ?_⟩
  · rcases List.mem_append.mp member with before | new
    · exact link.fitOut i before
    · rw [List.mem_singleton.mp new]; exact fits
  · rw [call_asks]
    exact flow_send link.calling stepped
  · rw [call_settles]
    exact link.serving

private theorem accept_linked {id : Int32} {text : Text}
    (link : Link mine theirs first second p o (.call id text :: inward) outward begun begunThere) :
    Link mine theirs first second { p with threads := input (id, text) :: p.threads } o inward outward ((id, text) :: begun)
      begunThere := by
  refine ⟨fun i member => link.fitIn i (List.mem_cons_of_mem _ member), link.fitOut, ?_, link.threadsThere, link.calling, ?_⟩
  · exact link.threads.cons _
  · exact flow_accept link.serving

private theorem settle_linked {id : Int32} {reply : Dispatched} {c : State size}
    (link : Link mine theirs first second p o (.back id reply :: inward) outward begun begunThere)
    (stepped : step p.calls (.receive id reply) = some c) :
    Link mine theirs first second { p with calls := c } o inward outward begun begunThere :=
  ⟨fun i member => link.fitIn i (List.mem_cons_of_mem _ member), link.fitOut, link.threads, link.threadsThere,
    flow_settle link.calling stepped, link.serving⟩

private theorem dispatch_linked {call : Int32 × Text} {reply : Dispatched}
    (link : Link mine theirs first second p o inward outward begun begunThere) (member : call ∈ begun)
    (deliverable : Deliverable call.1 reply) :
    Link mine theirs first second
      { p with threads := p.threads.erase (input call), answers := (call.1, reply) :: p.answers
               log := (call.1, some call.2, reply) :: p.log } o inward outward (begun.erase call) begunThere := by
  have split := List.perm_cons_erase member
  refine ⟨link.fitIn, link.fitOut, ?_, link.threadsThere, link.calling, ?_⟩
  · have threads := (link.threads.trans (split.map input)).erase (input call)
    rwa [List.map_cons, List.erase_cons_head] at threads
  · exact flow_dispatch deliverable (flow_perm split (List.Perm.refl _) link.serving)

private theorem answer_linked {id : Int32} {reply : Dispatched}
    (link : Link mine theirs first second p o inward outward begun begunThere) (member : (id, reply) ∈ p.answers) :
    Link mine theirs first second { p with answers := p.answers.erase (id, reply) } o inward (outward ++ [.back id reply]) begun
      begunThere := by
  have deliverable : Deliverable id reply := link.serving.fits (id, reply) (List.mem_append_left _ member)
  refine ⟨link.fitIn, fun i new => ?_, link.threads, link.threadsThere, ?_, ?_⟩
  · rcases List.mem_append.mp new with before | new
    · exact link.fitOut i before
    · rw [List.mem_singleton.mp new]; exact deliverable
  · rw [back_asks]
    exact link.calling
  · rw [back_settles]
    exact flow_answer (flow_perm (List.Perm.refl _) (List.perm_cons_erase member) link.serving)

/-- Every act of one of them leaves the two linked. -/
theorem partyStep_linked {a : Act} {q : Party size} {rest written : Text} (linked : Linked mine theirs first second p o toP toO)
    (allowed : Allowed mine p a) (stepped : partyStep latest mine p toP a = some (q, rest, written)) :
    Linked mine theirs first second q o rest (toO ++ written) := by
  obtain ⟨inward, outward, begun, begunThere, rfl, rfl, link⟩ := linked
  have running := link.calling.running
  cases a with
  | own a =>
    simp only [partyStep] at stepped
    split at stepped
    · cases stepped
    · rename_i own
      obtain ⟨c, moved, same⟩ := Option.map_eq_some_iff.mp stepped
      cases same
      rw [List.append_nil]
      exact ⟨_, _, _, _, rfl, rfl, own_linked link (by simpa using own) allowed moved⟩
  | request k =>
    obtain ⟨bytes, text, later⟩ := Option.bind_eq_some_iff.mp stepped
    obtain ⟨c, moved, same⟩ := Option.map_eq_some_iff.mp later
    cases same
    rw [callText_line allowed.1] at text
    cases text
    exact ⟨_, _, _, _, rfl, (stream_concat outward (.call _ _)).symm, request_linked link allowed moved⟩
  | accept =>
    obtain ⟨read, taken, later⟩ := Option.bind_eq_some_iff.mp stepped
    cases inward with
    | nil => rw [show stream [] = [] from rfl, readLine_nil] at taken; cases taken
    | cons item more =>
      rw [stream_read more (link.fitIn item List.mem_cons_self)] at taken
      cases taken
      cases item with
      | call id text =>
        have handled := request_handled latest running id text
        simp only [Item.line, handled] at later
        split at later
        · rename_i same
          cases same
          cases later
          rw [List.append_nil]
          exact ⟨_, _, _, _, rfl, rfl, accept_linked link⟩
        · cases later
      | back id reply =>
        simp only [Item.line] at later
        split at later
        · rename_i handled
          exact absurd handled (reply_no_request running)
        · cases later
  | settle id reply =>
    obtain ⟨read, taken, later⟩ := Option.bind_eq_some_iff.mp stepped
    obtain ⟨line, later⟩ := Option.ite_none_right_eq_some.mp later
    obtain ⟨c, moved, same⟩ := Option.map_eq_some_iff.mp later
    cases same
    cases inward with
    | nil => rw [show stream [] = [] from rfl, readLine_nil] at taken; cases taken
    | cons item more =>
      rw [stream_read more (link.fitIn item List.mem_cons_self)] at taken
      cases taken
      cases item with
      | call id' text => exact absurd line request_no_reply
      | back id' reply' =>
        obtain ⟨rfl, rfl⟩ := replyLine_injective line
        rw [List.append_nil]
        exact ⟨_, _, _, _, rfl, rfl, settle_linked link moved⟩
  | dispatch text reply =>
    simp only [partyStep] at stepped
    split at stepped
    · rename_i id message parsed
      obtain ⟨member, same⟩ := Option.ite_none_right_eq_some.mp stepped
      obtain ⟨call, started, rfl⟩ := List.mem_map.mp (link.threads.mem_iff.mp (List.contains_iff_mem.mp member))
      rw [input, request_parsed] at parsed
      cases parsed
      cases same
      rw [List.append_nil]
      exact ⟨_, _, _, _, rfl, rfl, dispatch_linked link started (allowed _ _ (request_parsed call.1 call.2))⟩
    · cases stepped
  | answer id reply =>
    obtain ⟨member, later⟩ := Option.ite_none_right_eq_some.mp stepped
    replace member := List.contains_iff_mem.mp member
    obtain ⟨bytes, written, same⟩ := Option.map_eq_some_iff.mp later
    rw [answerText_line (link.serving.fits (id, reply) (List.mem_append_left _ member))] at written
    cases written
    cases same
    exact ⟨_, _, _, _, rfl, (stream_concat outward (.back id reply)).symm, answer_linked link member⟩

end

/-- What a party can count on for its calls. -/
structure CallsServed (texts : Nat → Text) (caller : Party size) (peer : Party other) (toPeer toCaller : Text) : Prop where
  /-- What the dispatch function of the peer is called with is a call and its text, for each call at most once. -/
  faithful : ∀ e ∈ peer.log, ∃ k, Names caller.calls e.1 k ∧ e.2.1 = some (texts k)
  once : (peer.log.map Prod.fst).Nodup
  /-- A call that is back has what that function gave for it. -/
  returned : ∀ k out, caller.calls.pc k = .returned out →
    ∃ reply, (caller.calls.ids k, some (texts k), reply) ∈ peer.log ∧ out = outcome none (payload reply)
  /-- Once nothing is on the way, so do all that have sent their requests. -/
  served : toPeer = [] → peer.threads = [] → peer.answers = [] → toCaller = [] →
    ∀ k, (caller.calls.pc k).asking = true ∨ replied (caller.calls.pc k) = true →
      ∃ reply, (caller.calls.ids k, some (texts k), reply) ∈ peer.log ∧ Returns caller.calls k (outcome none (payload reply))

/-- What is on the way at a party goes on: a line in flight can be read when the thread that reads
    lines is done with the last one, a thread can call the dispatch function, and can then answer. -/
structure Moves (latest : Int32) (texts : Nat → Text) (p : Party size) (incoming : Text) : Prop where
  reads : incoming ≠ [] → p.calls.receiver = .idle →
    (partyStep latest texts p incoming .accept).isSome ∨
      ∃ id reply, (partyStep latest texts p incoming (.settle id reply)).isSome
  dispatches : ∀ text ∈ p.threads, ∀ reply, (partyStep latest texts p incoming (.dispatch text reply)).isSome
  answers : ∀ r ∈ p.answers, (partyStep latest texts p incoming (.answer r.1 r.2)).isSome

section
variable {mine theirs : Nat → Text} {first second : Int32} {p : Party size} {o : Party other} {toP toO : Text}

theorem linked_served (linked : Linked mine theirs first second p o toP toO) : CallsServed mine p o toO toP := by
  obtain ⟨inward, outward, begun, begunThere, rfl, rfl, link⟩ := linked
  have flow := link.calling
  have replies := matched_replies flow.matched
  refine ⟨flow.logged, List.nodup_iff_count_le_one.mpr fun id => ?_, fun k out back => ?_,
    fun written read answered shown k sent => ?_⟩
  · have once := flow.once id
    simp only [held] at once
    omega
  · obtain ⟨reply, received, same⟩ := replies.own k out back
    exact ⟨reply, flow_own_text flow (by simp [back]) received, same⟩
  · have begun : p.calls.pc k ≠ .outside := by
      intro outside
      simp [outside, Pc.asking, replied] at sent
    have nothing : begunThere = [] := by
      have threads := link.threadsThere.length_eq
      rw [read, List.length_map] at threads
      exact List.eq_nil_of_length_eq_zero threads.symm
    have arrived : p.calls.ids k ∉ p.calls.requests := by
      have spread := flow.spread (p.calls.ids k)
      rw [stream_eq_nil written, stream_eq_nil shown, nothing, answered] at spread
      exact List.count_eq_zero.mp spread
    obtain ⟨reply, received⟩ := flow_received flow sent arrived
    obtain ⟨j, names, _, back⟩ := replies.given _ received
    have own := names_unique flow.matched names ⟨issued_of_begun flow.matched.coherent begun, rfl⟩
    exact ⟨reply, flow_own_text flow begun received, own ▸ back⟩

theorem accept_step {latest : Int32} {after : Connection size} {line rest text : Text}
    (read : readLine toP = some (line, rest)) (idle : p.calls.receiver = .idle)
    (handled : connectionSockHandler latest ⟨true, true⟩ p.calls.connection line = .ok (after, [.runCall text])) :
    partyStep latest mine p toP .accept = some ({ p with threads := text :: p.threads }, rest, []) := by
  simp [partyStep, read, idle, handled]

theorem settle_step {latest : Int32} {id : Int32} {reply : Dispatched} {rest : Text} {c : State size}
    (read : readLine toP = some (replyLine id reply, rest)) (moved : step p.calls (.receive id reply) = some c) :
    partyStep latest mine p toP (.settle id reply) = some ({ p with calls := c }, rest, []) := by
  simp [partyStep, read, moved]

theorem linked_moves {latest : Int32} (linked : Linked mine theirs first second p o toP toO) : Moves latest mine p toP := by
  obtain ⟨inward, outward, begun, begunThere, rfl, rfl, link⟩ := linked
  refine ⟨fun incoming idle => ?_, fun text member reply => ?_, fun r member => ?_⟩
  · cases inward with
    | nil => exact absurd rfl incoming
    | cons item more =>
      have read := stream_read more (link.fitIn item List.mem_cons_self)
      cases item with
      | call id text =>
        left
        rw [accept_step read idle (request_handled latest link.calling.running id text)]
        rfl
      | back id reply =>
        obtain ⟨message, parsed, _⟩ := replyLine_parsed p.calls.connection.outstandingCalls id reply
        have asks : id ∈ p.calls.requests := by
          have spread := link.calling.spread id
          simp only [Item.settles, List.filterMap_cons, held_cons, if_true] at spread
          exact List.count_pos_iff.mp (by omega)
        right
        have stepped : (step p.calls (.receive id reply)).isSome := by simp [step, receiveStep, parsed, idle, asks]
        obtain ⟨c, moved⟩ := Option.isSome_iff_exists.mp stepped
        exact ⟨id, reply, by rw [settle_step read moved]; rfl⟩
  · obtain ⟨call, _, rfl⟩ := List.mem_map.mp (link.threads.mem_iff.mp member)
    have parsed := request_parsed call.1 call.2
    simp only [input] at member
    simp [partyStep, input, parsed, member]
  · have deliverable := link.serving.fits r (List.mem_append_left _ member)
    simp [partyStep, answerText_line deliverable, member]

end

/-- What holds of both parties. -/
structure BothServed (latest : Int32) (textsLeft textsRight : Nat → Text) (w : World size other) : Prop where
  left : CallsServed textsLeft w.left w.right w.toRight w.toLeft
  right : CallsServed textsRight w.right w.left w.toLeft w.toRight
  moves : Moves latest textsLeft w.left w.toLeft ∧ Moves latest textsRight w.right w.toRight

section
variable {latest : Int32} {textsLeft textsRight : Nat → Text}

theorem worldStep_linked (w : World size other) (m : Move) (v : World size other)
    (linked : Linked textsLeft textsRight 0 1 w.left w.right w.toLeft w.toRight) (permitted : Permitted textsLeft textsRight w m)
    (stepped : worldStep latest textsLeft textsRight w m = some v) :
    Linked textsLeft textsRight 0 1 v.left v.right v.toLeft v.toRight := by
  cases m with
  | left a =>
    obtain ⟨⟨q, rest, written⟩, moved, rfl⟩ := Option.map_eq_some_iff.mp stepped
    exact partyStep_linked linked permitted moved
  | right a =>
    obtain ⟨⟨q, rest, written⟩, moved, rfl⟩ := Option.map_eq_some_iff.mp stepped
    exact linked_swap (partyStep_linked (linked_swap linked) permitted moved)

theorem left_step {w : World size other} {a : Act} {q : Party size} {rest written : Text}
    (stepped : partyStep latest textsLeft w.left w.toLeft a = some (q, rest, written)) :
    worldStep latest textsLeft textsRight w (.left a) =
      some { w with left := q, toLeft := rest, toRight := w.toRight ++ written } := by
  simp [worldStep, stepped]

theorem right_step {w : World size other} {a : Act} {q : Party other} {rest written : Text}
    (stepped : partyStep latest textsRight w.right w.toRight a = some (q, rest, written)) :
    worldStep latest textsLeft textsRight w (.right a) =
      some { w with right := q, toRight := rest, toLeft := w.toLeft ++ written } := by
  simp [worldStep, stepped]

theorem start_linked (protocolVersion : Int32) : Linked textsLeft textsRight 0 1
    (start size other protocolVersion).left (start size other protocolVersion).right [] [] := by
  refine ⟨[], [], [], [], rfl, rfl, nofun, nofun, List.Perm.refl _, List.Perm.refl _, ?_, ?_⟩
  · exact flow_start textsLeft 0 protocolVersion
  · exact flow_start textsRight 1 protocolVersion

end

/-- The first call of the left party, and the reply of the right one. -/
def exchange : List Move :=
  [.left (.own .take), .left (.own (.register 0)), .left (.own (.lock 0)), .left (.request 0), .left (.own (.wait 0)),
    .right .accept, .right (.dispatch (lit "0 x") (.result (some (lit "y")))), .right (.answer 0 (.result (some (lit "y")))),
    .left (.settle 0 (.result (some (lit "y")))), .left (.own .store), .left (.own .broadcast), .left (.own (.resume 0)),
    .left (.own (.finish 0))]

end VoxiUtil.TextRpcServed
