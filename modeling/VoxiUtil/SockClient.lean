import VoxiUtil.Err
import VoxiUtil.Runs
import VoxiUtil.Sock

/-!
The clients' side of `sock.c`: `sock_connect` with all the ways in which it fails, the
thread of a connection, which calls its handler, and `sock_disconnect`, which the program may
call at any time. A descriptor that was closed is given out again, for another connection
or for anything else that the program opens.
-/
namespace VoxiUtil.SockClient
open VoxiUtil.CString VoxiUtil.Err VoxiUtil.Runs
open VoxiUtil.Sock (Event EINTR connectionThreadFunc)

/-- What a descriptor is open on: the socket of a connection, or anything else. -/
inductive File where
  | connection (c : Nat)
  | other
deriving DecidableEq

/-- A `t_Connection` that `sock_connect` has returned: its socket, whether its name could be copied,
    whether it is still allocated, all that its thread calls the handler with, up to the end of the
    stream, and what is left of that. -/
structure Conn where
  socket : Nat
  named : Bool
  live : Bool
  events : List Event
  todo : List Event

/-- The open descriptors, the connections in their order, how many copies of names are allocated,
    how many of these belong to connections that `sock_connect` has freed, and how many copies there are of texts that
    `voxi_sock_error` has made. `trace` is read by nobody. -/
structure World where
  files : Nat → Option File
  conns : List Conn
  computers : Nat
  lost : Nat
  texts : Nat
  trace : List (Nat × Event)

/-- What the calls of `sock_connect` come to. An `errno` is that of a call that fails. -/
structure Answers where
  allocated : Bool
  named : Bool
  hErrno : Option Int32
  socket : Except Int32 Nat
  connect : Option Int32
  thread : Option Int32

section
variable (sizeofConnection : Int32) (strerror : Int32 → Text)

/-- An error of `sock_connect` for a call that has set `errno`. -/
def failed (errno : Int32) (description : String) : Error :=
  errNew .sock 0 (some (errErrno errno (strerror errno))) (lit description)

/-- `close`. -/
def close (w : World) (fd : Nat) : World := { w with files := Function.update w.files fd none }

/-- The label `CONNECT_FAIL_2`, which frees the connection but not its copy of the name. -/
def connectFail2 (w : World) (named : Bool) : World := { w with lost := w.lost + named.toNat }

/-- The result is an error, or the connection is the last one. `socket` gives a descriptor that is not in use. -/
def sockConnect (w : World) (computer : Text) (a : Answers) (events : List Event) : Option (Option Error × World) :=
  if a.allocated = false then
    let reason := errNew .memory 0 none (lit "Out of memory when allocating " ++ printInt sizeofConnection ++ lit " bytes")
    some (some (errNew .sock 0 (some reason) (lit "Failed to allocate memory for the connection")), w)
  else
    let w := { w with computers := w.computers + a.named.toNat }
    match a.hErrno with
    | some hErrno =>
      let (text, copied) := voxiSockError hErrno
      let w := { w with texts := w.texts + copied.toNat }
      let reason := errNew .unknown 0 none text
      some (some (errNew .sock 0 (some reason) (lit "Failed to find the host '" ++ computer ++ lit "'.")), connectFail2 w a.named)
    | none =>
      match a.socket with
      | .error errno => some (some (failed strerror errno "Failed to create a TCP socket."), connectFail2 w a.named)
      | .ok fd => do
        assert (w.files fd = none)
        let w := { w with files := Function.update w.files fd (some (.connection w.conns.length)) }
        -- An interrupted `connect` goes on.
        match a.connect.filter (· ≠ EINTR) with
        | some errno => some (some (failed strerror errno "Failed to connect to the server."), connectFail2 (close w fd) a.named)
        | none =>
          match a.thread with
          | some errno => some (some (failed strerror errno "Failed to create socket handling thread."), connectFail2 (close w fd) a.named)
          | none => some (none, { w with conns := w.conns ++ [⟨fd, a.named, true, events, events⟩] })

/-- A connection that is freed is not freed again. -/
def sockDisconnect (w : World) (c : Nat) : Option World := do
  let conn ← w.conns[c]?
  assert (conn.live = true)
  let w := close w conn.socket
  some { w with computers := w.computers - conn.named.toNat, conns := w.conns.set c { conn with live := false } }

/-- The next call of a handler by the thread of a connection, which reads the connection and, from its descriptor, the stream. -/
def callHandler (w : World) (c : Nat) : Option World := do
  let conn ← w.conns[c]?
  assert (conn.live = true)
  assert (w.files conn.socket = some (.connection c))
  match conn.todo with
  | [] => none
  | event :: rest => some { w with conns := w.conns.set c { conn with todo := rest }, trace := w.trace ++ [(c, event)] }

/-- The calls of the functions, a call of a handler, and what the rest of the program does with descriptors. The peer of a
    connection sends a stream; `errno`, `residue` and `garbage` are as for the thread. -/
inductive Act where
  | connect (computer : Text) (answers : Answers) (errno : Int32) (residue : List Event → Text) (garbage stream : Text)
  | disconnect (c : Nat)
  | handler (c : Nat)
  | openOther (fd : Nat)
  | closeOther (fd : Nat)

def step (w : World) : Act → Option World
  | .connect computer answers errno residue garbage stream =>
    (connectionThreadFunc errno residue garbage stream).bind fun events =>
      (sockConnect sizeofConnection strerror w computer answers events).map Prod.snd
  | .disconnect c => sockDisconnect w c
  | .handler c => callHandler w c
  | .openOther fd => if w.files fd = none then some { w with files := Function.update w.files fd (some .other) } else none
  | .closeOther fd => if w.files fd = some .other then some (close w fd) else none

end

def start : World := ⟨fun _ => none, [], 0, 0, 0, []⟩

/-- `sock_connect` gets as far as `CONNECT_FAIL_2`. -/
def Answers.fails (a : Answers) : Bool :=
  a.hErrno.isSome || !a.socket.toBool || a.connect.any (· ≠ EINTR) || a.thread.isSome

/-- A failed `sock_connect` that has copied the name. -/
def Answers.losesName (a : Answers) : Bool := a.allocated && a.fails && a.named

/-- A `sock_connect` for which `voxi_sock_error` has copied its text. -/
def Answers.losesText (a : Answers) : Bool := a.allocated && a.hErrno.any fun hErrno => (voxiSockError hErrno).2

/-- The act is a `sock_connect` with such answers. -/
def Act.connects (holds : Answers → Bool) : Act → Bool
  | .connect _ answers _ _ _ _ => holds answers
  | _ => false

/-- What the handler of a connection was called with, in its order. -/
def World.heard (w : World) (c : Nat) : List Event := (w.trace.filter fun called => called.1 = c).map Prod.snd

/-- What belongs to connections: the descriptors that are open for one are the sockets of those that are not freed, the copies of
    names are theirs, but for those that a failed `sock_connect` has lost, and each handler is called as its stream says. -/
structure Books (w : World) : Prop where
  sockets : ∀ fd c, w.files fd = some (.connection c) ↔ ∃ conn, w.conns[c]? = some conn ∧ conn.live = true ∧ conn.socket = fd
  computers : w.computers = w.lost + w.conns.countP fun conn => conn.live && conn.named
  calls : ∀ c conn, w.conns[c]? = some conn → w.heard c ++ conn.todo = conn.events

section
variable {sizeofConnection : Int32} {strerror : Int32 → Text} {w v : World} {c : Nat} {conn : Conn}

theorem heard_concat (w : World) (c : Nat) (called : Nat × Event) (conns : List Conn) :
    World.heard { w with conns := conns, trace := w.trace ++ [called] } c = w.heard c ++ if called.1 = c then [called.2] else [] := by
  simp only [World.heard, List.filter_append, List.map_append]
  split <;> simp [*]

/-- A failed `sock_connect` leaves the descriptors as they were, and may lose copies of the name and of a text. -/
theorem sockConnect_cases {computer : Text} {a : Answers} {events : List Event} {error : Option Error}
    (done : sockConnect sizeofConnection strerror w computer a events = some (error, v)) :
    (∃ e, error = some e) ∧ v = { w with
        computers := w.computers + a.losesName.toNat
        lost := w.lost + a.losesName.toNat
        texts := w.texts + a.losesText.toNat } ∨
      error = none ∧ a.losesName = false ∧ a.losesText = false ∧ ∃ fd, w.files fd = none ∧ v = { w with
        files := Function.update w.files fd (some (.connection w.conns.length))
        conns := w.conns ++ [⟨fd, a.named, true, events, events⟩]
        computers := w.computers + a.named.toNat } := by
  have reopened : ∀ fd x, w.files fd = none → Function.update (Function.update w.files fd x) fd none = w.files := by
    intro fd x unused
    rw [Function.update_idem, ← unused, Function.update_eq_self]
  have refused : a.connect.any (· ≠ EINTR) = (a.connect.filter (· ≠ EINTR)).isSome := by cases a.connect <;> simp
  unfold sockConnect at done
  unfold Answers.losesName Answers.losesText Answers.fails
  rw [refused]
  by_cases allocated : a.allocated = false
  · rw [if_pos allocated] at done
    cases done
    exact .inl ⟨⟨_, rfl⟩, by simp [allocated]⟩
  · rw [if_neg allocated] at done
    rw [Bool.not_eq_false] at allocated
    cases host : a.hErrno with
    | some hErrno =>
      simp only [host, Option.some.injEq, Prod.mk.injEq] at done
      obtain ⟨rfl, rfl⟩ := done
      exact .inl ⟨⟨_, rfl⟩, by simp only [connectFail2, allocated, Option.isSome_some, Option.any_some, Bool.true_or, Bool.true_and]⟩
    | none =>
      cases opened : a.socket with
      | error errno =>
        simp only [host, opened, Option.some.injEq, Prod.mk.injEq] at done
        obtain ⟨rfl, rfl⟩ := done
        exact .inl ⟨⟨_, rfl⟩, by simp only [connectFail2, allocated, Option.isSome_none, Option.any_none, Except.toBool,
          Bool.not_false, Bool.or_true, Bool.true_or, Bool.true_and, Bool.and_false, Bool.toNat_false, Nat.add_zero]⟩
      | ok fd =>
        simp only [host, opened, Option.bind_eq_bind, Option.bind_eq_some_iff, assert_eq_some] at done
        obtain ⟨_, unused, done⟩ := done
        cases connected : a.connect.filter (· ≠ EINTR) with
        | some errno =>
          simp only [connected, Option.some.injEq, Prod.mk.injEq] at done
          obtain ⟨rfl, rfl⟩ := done
          exact .inl ⟨⟨_, rfl⟩, by simp only [connectFail2, close, reopened fd _ unused, allocated,
            Option.isSome_none, Option.isSome_some, Option.any_none, Bool.or_true, Bool.true_or, Bool.true_and, Bool.and_false,
            Bool.toNat_false, Nat.add_zero]⟩
        | none =>
          cases created : a.thread with
          | some errno =>
            simp only [connected, created, Option.some.injEq, Prod.mk.injEq] at done
            obtain ⟨rfl, rfl⟩ := done
            exact .inl ⟨⟨_, rfl⟩, by simp only [connectFail2, close, reopened fd _ unused, allocated,
              Option.isSome_none, Option.isSome_some, Option.any_none, Bool.or_true, Bool.true_and, Bool.and_false,
              Bool.toNat_false, Nat.add_zero]⟩
          | none =>
            simp only [connected, created, Option.some.injEq, Prod.mk.injEq] at done
            obtain ⟨rfl, rfl⟩ := done
            refine .inr ⟨rfl, ?_, ?_, fd, unused, rfl⟩
            · simp only [Option.isSome_none, Except.toBool, Bool.not_true, Bool.or_self, Bool.and_false,
                Bool.false_and]
            · simp only [Option.any_none, Bool.and_false]

theorem start_books : Books start where
  sockets := by simp [start]
  computers := rfl
  calls := by simp [start]

/-- The connections with one of them changed. -/
theorem set_some {conns : List Conn} {other after : Conn} {k : Nat} (found : conns[c]? = some conn) :
    (conns.set c after)[k]? = some other ↔ k = c ∧ other = after ∨ k ≠ c ∧ conns[k]? = some other := by
  have inside := (List.getElem?_eq_some_iff.mp found).1
  by_cases own : k = c
  · subst own
    simp [List.getElem?_set_self inside, eq_comm]
  · simp [List.getElem?_set_ne (Ne.symm own), own]

theorem concat_some {conns : List Conn} {other new : Conn} {k : Nat} :
    (conns ++ [new])[k]? = some other ↔ k = conns.length ∧ other = new ∨ conns[k]? = some other := by
  rcases Nat.lt_or_ge k conns.length with old | late
  · simp [List.getElem?_append_left old, Nat.ne_of_lt old]
  · have out : conns[k]? = none := List.getElem?_eq_none late
    rw [List.getElem?_append_right late, List.getElem?_singleton, out]
    by_cases last : k = conns.length
    · simp [last, eq_comm]
    · have behind : k - conns.length ≠ 0 := by omega
      simp [last, behind]

theorem countP_replaced {conns : List Conn} (after : Conn) (counts : Conn → Bool) (found : conns[c]? = some conn) :
    (conns.set c after).countP counts + (counts conn).toNat = conns.countP counts + (counts after).toNat := by
  obtain ⟨inside, rfl⟩ := List.getElem?_eq_some_iff.mp found
  rw [List.countP_set inside]
  cases before : counts conns[c]
  · cases counts after <;> rfl
  · have counted : 0 < conns.countP counts := List.countP_pos_iff.mpr ⟨_, List.getElem_mem inside, before⟩
    rw [if_pos rfl, Bool.toNat_true]
    cases counts after <;> simp only [if_true, if_false, Bool.false_eq_true, Bool.toNat_true, Bool.toNat_false] <;> omega

/-- What a run keeps. -/
structure Inv (w : World) : Prop where
  books : Books w
  known : ∀ called ∈ w.trace, called.1 < w.conns.length

theorem start_inv : Inv start := ⟨start_books, by simp [start]⟩

theorem Inv.unheard (inv : Inv w) : w.heard w.conns.length = [] := by
  simp only [World.heard, List.map_eq_nil_iff, List.filter_eq_nil_iff, decide_eq_true_eq]
  intro called member same
  exact Nat.lt_irrefl _ (same ▸ inv.known called member)

theorem connect_inv {fd : Nat} {events : List Event} {named : Bool} (inv : Inv w) (unused : w.files fd = none) :
    Inv { w with
      files := Function.update w.files fd (some (.connection w.conns.length))
      conns := w.conns ++ [⟨fd, named, true, events, events⟩]
      computers := w.computers + named.toNat } := by
  have free : ∀ (k : Nat) (other : Conn), w.conns[k]? = some other → other.live = true → other.socket ≠ fd := by
    rintro k other found live rfl
    have taken := (inv.books.sockets other.socket k).mpr ⟨other, found, live, rfl⟩
    rw [unused] at taken
    cases taken
  refine ⟨⟨fun fd' c => ?_, ?_, fun c conn found => ?_⟩, fun called member => ?_⟩
  · simp only [concat_some]
    by_cases own : fd' = fd
    · subst own
      rw [Function.update_self]
      constructor
      · intro same
        cases same
        exact ⟨_, .inl ⟨rfl, rfl⟩, rfl, rfl⟩
      · rintro ⟨other, ⟨rfl, -⟩ | found, live, same⟩
        · rfl
        · exact absurd same (free c other found live)
    · rw [Function.update_of_ne own, inv.books.sockets]
      constructor
      · rintro ⟨other, found, rest⟩
        exact ⟨other, .inr found, rest⟩
      · rintro ⟨other, ⟨-, rfl⟩ | found, live, same⟩
        · exact absurd same.symm own
        · exact ⟨other, found, live, same⟩
  · have kept := inv.books.computers
    simp only [List.countP_append, List.countP_singleton]
    cases named <;> simp <;> omega
  · rcases concat_some.mp found with ⟨rfl, rfl⟩ | old
    · change w.heard w.conns.length ++ events = events
      rw [inv.unheard, List.nil_append]
    · exact inv.books.calls c conn old
  · have before := inv.known called member
    rw [List.length_append]
    exact Nat.lt_of_lt_of_le before (Nat.le_add_right ..)

theorem disconnect_inv (inv : Inv w) (done : sockDisconnect w c = some v) : Inv v := by
  obtain ⟨conn, found, later⟩ := Option.bind_eq_some_iff.mp done
  obtain ⟨_, live, same⟩ := Option.bind_eq_some_iff.mp later
  replace live := assert_eq_some.mp live
  cases same
  obtain ⟨inside, here⟩ := List.getElem?_eq_some_iff.mp found
  have open' := (inv.books.sockets conn.socket c).mpr ⟨conn, found, live, rfl⟩
  refine ⟨⟨fun fd k => ?_, ?_, fun k other found' => ?_⟩, by simpa [close] using inv.known⟩
  · simp only [close, set_some found]
    by_cases own : fd = conn.socket
    · subst own
      rw [Function.update_self]
      constructor
      · intro nothing
        cases nothing
      · rintro ⟨other, ⟨-, rfl⟩ | ⟨apart, found'⟩, live', same⟩
        · cases live'
        · have taken := (inv.books.sockets conn.socket k).mpr ⟨other, found', live', same⟩
          rw [open'] at taken
          cases taken
          exact absurd rfl apart
    · rw [Function.update_of_ne own, inv.books.sockets]
      constructor
      · rintro ⟨other, found', live', rfl⟩
        refine ⟨other, .inr ⟨?_, found'⟩, live', rfl⟩
        rintro rfl
        rw [found] at found'
        cases found'
        exact own rfl
      · rintro ⟨other, ⟨-, rfl⟩ | ⟨-, found'⟩, live', same⟩
        · cases live'
        · exact ⟨other, found', live', same⟩
  · have kept := inv.books.computers
    have replaced := countP_replaced { conn with live := false } (fun conn => conn.live && conn.named) found
    simp only [live, Bool.true_and, Bool.false_and, Bool.toNat_false, Nat.add_zero] at replaced
    simp only [close]
    omega
  · rcases (set_some found).mp found' with ⟨rfl, rfl⟩ | ⟨-, old⟩
    · exact inv.books.calls k conn found
    · exact inv.books.calls k other old

theorem handler_inv (inv : Inv w) (done : callHandler w c = some v) : Inv v := by
  obtain ⟨conn, found, later⟩ := Option.bind_eq_some_iff.mp done
  obtain ⟨_, -, later⟩ := Option.bind_eq_some_iff.mp later
  obtain ⟨_, -, later⟩ := Option.bind_eq_some_iff.mp later
  obtain ⟨inside, here⟩ := List.getElem?_eq_some_iff.mp found
  split at later
  · cases later
  · rename_i event rest todo
    cases later
    refine ⟨⟨fun fd k => ?_, ?_, fun k other found' => ?_⟩, fun called member => ?_⟩
    · simp only [set_some found]
      rw [inv.books.sockets]
      constructor
      · rintro ⟨other, found', rest'⟩
        by_cases own : k = c
        · subst own
          rw [found] at found'
          cases found'
          exact ⟨_, .inl ⟨rfl, rfl⟩, rest'⟩
        · exact ⟨other, .inr ⟨own, found'⟩, rest'⟩
      · rintro ⟨other, ⟨rfl, rfl⟩ | ⟨-, found'⟩, rest'⟩
        · exact ⟨conn, found, rest'⟩
        · exact ⟨other, found', rest'⟩
    · have kept := inv.books.computers
      have replaced := countP_replaced { conn with todo := rest } (fun conn => conn.live && conn.named) found
      simp only at replaced ⊢
      omega
    · rw [heard_concat]
      rcases (set_some found).mp found' with ⟨rfl, rfl⟩ | ⟨apart, old⟩
      · have before := inv.books.calls k conn found
        rw [todo] at before
        simpa using before
      · simpa [Ne.symm apart] using inv.books.calls k other old
    · rw [List.length_set]
      rcases List.mem_append.mp member with before | last
      · exact inv.known called before
      · rw [List.mem_singleton.mp last]
        exact inside

/-- A descriptor that is of no connection, before and after. -/
theorem other_inv {fd : Nat} {file : Option File} (inv : Inv w) (before : ∀ k, w.files fd ≠ some (.connection k))
    (now : ∀ k, file ≠ some (.connection k)) : Inv { w with files := Function.update w.files fd file } := by
  refine ⟨⟨fun fd' k => ?_, inv.books.computers, inv.books.calls⟩, inv.known⟩
  change Function.update w.files fd file fd' = _ ↔ ∃ conn, w.conns[k]? = some conn ∧ _
  by_cases own : fd' = fd
  · subst own
    rw [Function.update_self, ← inv.books.sockets]
    exact iff_of_false (now k) (before k)
  · rw [Function.update_of_ne own]
    exact inv.books.sockets fd' k

/-- What an act does to the connections. -/
inductive Effect (w v : World) : Act → Prop where
  | connects {computer : Text} {answers : Answers} {errno : Int32} {residue : List Event → Text} {garbage stream : Text}
      {new : Conn} (live : new.live = true) (conns : v.conns = w.conns ++ [new]) :
      Effect w v (.connect computer answers errno residue garbage stream)
  | disconnects {c : Nat} {conn : Conn} (found : w.conns[c]? = some conn) (conns : v.conns = w.conns.set c { conn with live := false }) :
      Effect w v (.disconnect c)
  | calls {c : Nat} {conn : Conn} {rest : List Event} (found : w.conns[c]? = some conn) (live : conn.live = true)
      (conns : v.conns = w.conns.set c { conn with todo := rest }) : Effect w v (.handler c)
  | none {act : Act} (kept : ∀ c, act ≠ .disconnect c) (conns : v.conns = w.conns) : Effect w v act

theorem step_spec {act : Act} (inv : Inv w) (done : step sizeofConnection strerror w act = some v) : Inv v ∧ Effect w v act := by
  cases act with
  | connect computer answers errno residue garbage stream =>
    obtain ⟨events, -, later⟩ := Option.bind_eq_some_iff.mp done
    obtain ⟨⟨error, after⟩, tried, rfl⟩ := Option.map_eq_some_iff.mp later
    rcases sockConnect_cases tried with ⟨-, rfl⟩ | ⟨-, -, -, fd, unused, rfl⟩
    · refine ⟨⟨⟨inv.books.sockets, ?_, inv.books.calls⟩, inv.known⟩, .none (fun c => nofun) rfl⟩
      have kept := inv.books.computers
      simp only
      omega
    · exact ⟨connect_inv inv unused, .connects rfl rfl⟩
  | disconnect c =>
    refine ⟨disconnect_inv inv done, ?_⟩
    obtain ⟨conn, found, later⟩ := Option.bind_eq_some_iff.mp done
    obtain ⟨_, -, same⟩ := Option.bind_eq_some_iff.mp later
    cases same
    exact .disconnects found rfl
  | handler c =>
    refine ⟨handler_inv inv done, ?_⟩
    obtain ⟨conn, found, later⟩ := Option.bind_eq_some_iff.mp done
    obtain ⟨_, live, later⟩ := Option.bind_eq_some_iff.mp later
    obtain ⟨_, -, later⟩ := Option.bind_eq_some_iff.mp later
    split at later
    · cases later
    · cases later
      exact .calls found (assert_eq_some.mp live) rfl
  | openOther fd =>
    obtain ⟨unused, same⟩ := Option.ite_none_right_eq_some.mp done
    cases same
    exact ⟨other_inv inv (by simp [unused]) (by simp), .none (fun c => nofun) rfl⟩
  | closeOther fd =>
    obtain ⟨opened, same⟩ := Option.ite_none_right_eq_some.mp done
    cases same
    exact ⟨other_inv inv (by simp [opened]) (by simp), .none (fun c => nofun) rfl⟩

/-- What an act loses. -/
theorem step_losses {act : Act} (done : step sizeofConnection strerror w act = some v) :
    v.lost = w.lost + (act.connects Answers.losesName).toNat ∧ v.texts = w.texts + (act.connects Answers.losesText).toNat := by
  cases act with
  | connect computer answers errno residue garbage stream =>
    obtain ⟨events, -, later⟩ := Option.bind_eq_some_iff.mp done
    obtain ⟨⟨error, after⟩, tried, rfl⟩ := Option.map_eq_some_iff.mp later
    rcases sockConnect_cases tried with ⟨-, rfl⟩ | ⟨-, name, text, fd, -, rfl⟩
    · exact ⟨rfl, rfl⟩
    · simp [Act.connects, name, text]
  | disconnect c =>
    obtain ⟨conn, -, later⟩ := Option.bind_eq_some_iff.mp done
    obtain ⟨_, -, same⟩ := Option.bind_eq_some_iff.mp later
    cases same
    exact ⟨rfl, rfl⟩
  | handler c =>
    obtain ⟨conn, -, later⟩ := Option.bind_eq_some_iff.mp done
    obtain ⟨_, -, later⟩ := Option.bind_eq_some_iff.mp later
    obtain ⟨_, -, later⟩ := Option.bind_eq_some_iff.mp later
    split at later
    · cases later
    · cases later
      exact ⟨rfl, rfl⟩
  | openOther fd =>
    obtain ⟨-, same⟩ := Option.ite_none_right_eq_some.mp done
    cases same
    exact ⟨rfl, rfl⟩
  | closeOther fd =>
    obtain ⟨-, same⟩ := Option.ite_none_right_eq_some.mp done
    cases same
    exact ⟨rfl, rfl⟩

/-- Every thread that has not come to the end of its stream can go on: its connection is not freed, and its descriptor is its own. -/
def Secure (w : World) : Prop := ∀ (c : Nat) (conn : Conn), w.conns[c]? = some conn → conn.todo ≠ [] → (callHandler w c).isSome = true

/-- A connection is freed when its handler was called with `SOCK_DISCONNECT`. -/
def Finished (w : World) : Act → Prop
  | .disconnect c => ∀ conn, w.conns[c]? = some conn → conn.todo = []
  | _ => True

/-- Who has calls to come is not freed. -/
def Held (w : World) : Prop := ∀ (c : Nat) (conn : Conn), w.conns[c]? = some conn → conn.todo ≠ [] → conn.live = true

theorem secure_iff (inv : Inv w) : Secure w ↔ Held w := by
  refine forall_congr' fun c => forall_congr' fun conn => forall_congr' fun found => forall_congr' fun unfinished => ?_
  constructor
  · intro goes
    obtain ⟨v, done⟩ := Option.isSome_iff_exists.mp goes
    obtain ⟨other, found', later⟩ := Option.bind_eq_some_iff.mp done
    rw [found] at found'
    cases found'
    obtain ⟨_, live, -⟩ := Option.bind_eq_some_iff.mp later
    exact assert_eq_some.mp live
  · intro live
    have own := (inv.books.sockets conn.socket c).mpr ⟨conn, found, live, rfl⟩
    obtain ⟨event, rest, todo⟩ := List.exists_cons_of_ne_nil unfinished
    simp [callHandler, found, live, own, todo]

theorem step_held {act : Act} (held : Held w) (finished : Finished w act) (effect : Effect w v act) : Held v := by
  intro k other found unfinished
  cases effect with
  | connects live conns =>
    rw [conns] at found
    rcases concat_some.mp found with ⟨-, rfl⟩ | old
    · exact live
    · exact held k other old unfinished
  | disconnects found' conns =>
    rw [conns] at found
    rcases (set_some found').mp found with ⟨-, rfl⟩ | ⟨-, old⟩
    · exact absurd (finished _ found') unfinished
    · exact held k other old unfinished
  | calls found' live conns =>
    rw [conns] at found
    rcases (set_some found').mp found with ⟨-, rfl⟩ | ⟨-, old⟩
    · exact live
    · exact held k other old unfinished
  | none kept conns =>
    rw [conns] at found
    exact held k other found unfinished

/-- The thread of a connection that is freed before its end has nothing to go on with. -/
theorem step_broken {act : Act} (early : ¬ Finished w act) (effect : Effect w v act) : ¬ Held v := by
  intro held
  cases effect with
  | @disconnects c conn found conns =>
    refine early fun other found' => ?_
    rw [found] at found'
    cases found'
    by_contra unfinished
    have freed : v.conns[c]? = some { conn with live := false } := by
      rw [conns]
      exact (set_some found).mpr (.inl ⟨rfl, rfl⟩)
    cases held c _ freed unfinished
  | connects live conns => exact early trivial
  | calls found live conns => exact early trivial
  | @none act kept conns =>
    cases act with
    | disconnect c => exact kept c rfl
    | _ => exact early trivial

end

/-- In every run, whatever fails in `sock_connect` and whatever descriptors the rest of the program opens and closes, exactly the
    connections that were not freed have their sockets open, and handlers are called as the streams say. What is lost is a copy of the
    name with each failed `sock_connect` that has made one, and a text with each `h_errno` that has none of its own. All threads can
    always go on exactly when nobody frees a connection before its handler was called with `SOCK_DISCONNECT`. -/
theorem connections_secure_iff {sizeofConnection : Int32} {strerror : Int32 → Text} {acts : List Act} {w : World}
    (ran : run (step sizeofConnection strerror) start acts = some w) :
    Visits (step sizeofConnection strerror) Books start acts ∧ w.lost = acts.countP (Act.connects Answers.losesName) ∧
      w.texts = acts.countP (Act.connects Answers.losesText) ∧
      (Visits (step sizeofConnection strerror) Secure start acts ↔ Guarded (step sizeofConnection strerror) Finished start acts) := by
  have free : Guarded (step sizeofConnection strerror) (fun _ _ => True) start acts := guarded_forall fun _ _ _ => trivial
  have names := run_counts World.lost (Act.connects Answers.losesName) (fun _ _ _ done => (step_losses done).1) ran
  have texts := run_counts World.texts (Act.connects Answers.losesText) (fun _ _ _ done => (step_losses done).2) ran
  refine ⟨?_, names.trans (Nat.zero_add _), texts.trans (Nat.zero_add _), ?_⟩
  · refine visits_mono (fun w inv => Inv.books inv) (guarded_visits ?_ start_inv free)
    exact fun w act v inv _ done => (step_spec inv done).1
  · have preserved : ∀ w act v, True → Inv w ∧ Held w → Finished w act → step sizeofConnection strerror w act = some v → Inv v ∧ Held v := by
      rintro w act v - ⟨inv, held⟩ finished done
      obtain ⟨kept, effect⟩ := step_spec inv done
      exact ⟨kept, step_held held finished effect⟩
    have sound : ∀ w, Inv w ∧ Held w → Secure w := by
      rintro w ⟨inv, held⟩
      exact (secure_iff inv).mpr held
    have broken : ∀ w act v, True → Inv w ∧ Held w → ¬ Finished w act → step sizeofConnection strerror w act = some v → ¬ Secure v := by
      rintro w act v - ⟨inv, -⟩ early done secure
      obtain ⟨kept, effect⟩ := step_spec inv done
      exact step_broken early effect ((secure_iff kept).mp secure)
    have held : Held start := by simp [Held, start]
    exact visits_iff_guarded preserved sound broken free ⟨start_inv, held⟩ ran

/-- The stream of a peer that sends nothing. -/
private theorem silent_events : connectionThreadFunc 2 (fun _ => []) [] [] = some [.disconnect] := by
  rw [connectionThreadFunc, Sock.loop_end]
  rfl

private def reached : Answers := ⟨true, true, none, .ok 3, none, none⟩

private def unknown : Answers := ⟨true, true, some 1, .ok 3, none, none⟩

/-- The first host is not found. Before the thread of the second connection has come to the end of its stream it cannot be freed;
    then its descriptor serves another one. -/
private def visits : List Act :=
  [.connect (lit "a") unknown 2 (fun _ => []) [] [], .connect (lit "b") reached 2 (fun _ => []) [] [], .handler 0, .disconnect 0,
    .connect (lit "c") reached 2 (fun _ => []) [] []]

theorem connections_secure_iff_visits : ∃ w, run (step 96 fun _ => []) start visits = some w ∧ w.computers = 2 ∧ w.lost = 1 ∧
    Visits (step 96 fun _ => []) Books start visits ∧ w.lost = visits.countP (Act.connects Answers.losesName) ∧
      w.texts = visits.countP (Act.connects Answers.losesText) ∧
      (Visits (step 96 fun _ => []) Secure start visits ↔ Guarded (step 96 fun _ => []) Finished start visits) := by
  have counts : (run (step 96 fun _ => []) start visits).map (fun w => (w.computers, w.lost)) = some (2, 1) := by
    simp only [visits, run, step, silent_events, Option.bind_some]
    rfl
  obtain ⟨w, ran, same⟩ := Option.map_eq_some_iff.mp counts
  obtain ⟨copies, lost⟩ := Prod.mk.inj same
  exact ⟨w, ran, copies, lost, connections_secure_iff ran⟩

end VoxiUtil.SockClient
