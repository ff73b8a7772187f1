import VoxiUtil.Sock
import VoxiUtil.ThreadPoolBookkeeping

/-!
The server of `sock.c`: the thread that accepts connections and calls the server's
handler for each, and the pool threads that read the connections' lines and call the
connections' handlers. Each may move at any time, and the waits of the pool end by a
signal only.
-/
namespace VoxiUtil.SockServer
open VoxiUtil.CString VoxiUtil.Runs VoxiUtil.ThreadPoolJobs
open VoxiUtil.ThreadPool hiding step Act
open VoxiUtil.ThreadPoolLists (runThread_cases)
open VoxiUtil.ThreadPoolBookkeeping (SameCalls Moves work_cases)
open VoxiUtil.Sock (Event connectionThreadFunc)
open VoxiUtil.Stdio (LF)

/-- A call of a handler: of the server's with `SOCK_CONNECTION`, or of a connection's with its data. -/
inductive Called where
  | connection (serverConn : Nat)
  | event (serverConn : Nat) (data : Option Nat) (event : Event)
deriving DecidableEq

/-- The connection that a call is about. -/
def Called.about : Called → Nat
  | .connection serverConn => serverConn
  | .event serverConn _ _ => serverConn

/-- A connection: all that its thread calls the handler with, up to the end of its stream, and its data. -/
structure ServerConn where
  events : List Event
  data : Option Nat
deriving DecidableEq

/-- Where `server_thread_func` is. Between `runThread` and `setFunction` it is in `threadPool_runThread`. -/
inductive ServerPlace where
  | accept
  | handler
  | runThread
  | setFunction
deriving DecidableEq

/-- The connections are numbered as they were accepted, and so are the calls of `threadPool_runThread`. `todo` is, by pool thread,
    what its `ConnectionThreadFunc` still calls the handler with; `trace` is read by nobody. -/
structure World where
  pool : SThreadPool Unit
  place : ServerPlace
  conns : List ServerConn
  todo : Nat → List Event
  trace : List Called

def sockThreadpoolSize : Nat := 5

/-- The server is created. -/
def start : World := ⟨threadPoolCreate true sockThreadpoolSize, .accept, [], fun _ => [], []⟩

/-- What may happen next. `accept` is a peer with the bytes of its stream; `setUserData` is a call of `sock_setUserData` on the new
    connection by the server's handler; `handle` is the next call of a connection's handler by the pool thread. -/
inductive Act where
  | accept (errno : Int32) (residue : List Event → Text) (garbage stream : Text)
  | setUserData (data : Option Nat)
  | handled
  | runThread (created : Bool)
  | setFunction
  | work (t : Nat) (wakes : Wakes)
  | handle (t : Nat)
  | returns (t : Nat)

/-- The data of a connection, which is NULL at first. -/
def World.data (w : World) (serverConn : Nat) : Option Nat := w.conns[serverConn]?.bind (·.data)

def World.events (w : World) (serverConn : Nat) : List Event := (w.conns[serverConn]?.map (·.events)).getD []

def step (w : World) : Act → Option World
  | .accept errno residue garbage stream =>
    if w.place = .accept then
      (connectionThreadFunc errno residue garbage stream).map fun events =>
        { w with place := .handler, conns := w.conns ++ [⟨events, none⟩], trace := w.trace ++ [.connection w.conns.length] }
    else none
  | .setUserData data =>
    if w.place = .handler then some { w with conns := w.conns.modify (w.conns.length - 1) fun conn => { conn with data := data } }
    else none
  | .handled => if w.place = .handler then some { w with place := .runThread } else none
  | .runThread created =>
    if w.place = .runThread then
      match threadPoolRunThread w.pool created with
      | some (pool, none) => some { w with pool := pool, place := .setFunction }
      -- `assert(error == NULL)` fails, or the list is locked.
      | _ => none
    else none
  | .setFunction =>
    if w.place = .setFunction then
      (threadPoolSetFunction w.pool (w.conns.length - 1)).map fun pool => { w with pool := pool, place := .accept }
    else none
  | .work t wakes =>
    (threadPoolThreadMainLoop w.pool t wakes).map fun pool =>
      match pool.place t with
      | .running call => { w with pool := pool, todo := Function.update w.todo t (w.events call) }
      | _ => { w with pool := pool }
  | .handle t =>
    match w.pool.place t, w.todo t with
    | .running call, event :: rest =>
      some { w with todo := Function.update w.todo t rest, trace := w.trace ++ [.event call (w.data call) event] }
    | _, _ => none
  | .returns t =>
    if w.todo t = [] then (functionReturns w.pool t ()).map fun pool => { w with pool := pool } else none

/-- The calls that are about a connection, in their order. -/
def World.heard (w : World) (serverConn : Nat) : List Called := w.trace.filter fun called => called.about = serverConn

/-- All calls for a connection: of the server's handler and then, with the data that it gave the connection, of the connection's. -/
def script (serverConn : Nat) (conn : ServerConn) : List Called :=
  .connection serverConn :: conn.events.map (.event serverConn conn.data)

/-! ## The pool -/

section
variable {p p' : SThreadPool Unit} {t call : Nat}

/-- Nothing changes for the function of a call. -/
def Same (p p' : SThreadPool Unit) (call : Nat) : Prop :=
  (Ran p' call ↔ Ran p call) ∧ (Ran p call → p'.newThread call = p.newThread call ∧
    (p'.place (p.newThread call) = .running call ↔ p.place (p.newThread call) = .running call))

theorem same_refl : Same p p call := ⟨Iff.rfl, fun _ => ⟨rfl, Iff.rfl⟩⟩

theorem same_runThread {created : Bool} {error : Option String} (inv : ThreadPoolBookkeeping.Inv p)
    (ran : threadPoolRunThread p created = some (p', error)) : Same p p' call := by
  have below : Ran p call → call ≠ p.calls := fun ran => Nat.ne_of_lt (inv.jobs.ran ran).1
  rcases runThread_cases inv.running ran with ⟨rfl, _⟩ | ⟨t, _, first, rfl⟩ | ⟨_, rfl⟩
  · exact same_refl
  · obtain ⟨_, _, _, _, taken⟩ := relinked_takeFirst p t
    obtain ⟨_, _, _, _, added⟩ := relinked_addInUse (takeFirst p t) t
    rw [handOut, added, taken]
    exact ⟨Iff.rfl, fun ran => ⟨Function.update_of_ne (below ran) .., Iff.rfl⟩⟩
  · obtain ⟨_, _, _, _, added⟩ := relinked_addInUse (threadPoolThreadCreate p).2 p.created
    rw [handOut, added]
    refine ⟨Iff.rfl, fun ran => ⟨Function.update_of_ne (below ran) .., ?_⟩⟩
    have made := Nat.ne_of_lt (inv.jobs.made call (inv.jobs.ran ran).1)
    change Function.update p.place p.created .lockStart (p.newThread call) = .running call ↔ _
    rw [Function.update_of_ne made]

theorem same_setFunction {other : Nat} (ran : threadPoolSetFunction p other = some p') : Same p p' call := by
  obtain ⟨_, same⟩ := Option.ite_none_right_eq_some.mp ran
  cases same
  unfold signalStartCondition
  split
  · rename_i waits
    refine ⟨Iff.rfl, fun _ => ⟨rfl, ?_⟩⟩
    change Function.update p.place (p.newThread other) .startWoken (p.newThread call) = .running call ↔ _
    by_cases mine : p.newThread call = p.newThread other
    · rw [mine, Function.update_self]
      change p.place (p.newThread other) = _ at waits
      simp [waits]
    · rw [Function.update_of_ne mine]
  · exact same_refl

theorem calls_runThread {created : Bool} (inv : ThreadPoolBookkeeping.Inv p)
    (ran : threadPoolRunThread p created = some (p', none)) : p'.calls = p.calls + 1 := by
  rcases runThread_cases inv.running ran with ⟨_, failed⟩ | ⟨t, _, first, rfl⟩ | ⟨_, rfl⟩
  · exact absurd rfl failed
  · obtain ⟨_, _, _, _, taken⟩ := relinked_takeFirst p t
    rw [handOut, taken]
  · rfl

theorem calls_setFunction (ran : threadPoolSetFunction p call = some p') : p'.calls = p.calls := by
  obtain ⟨_, same⟩ := Option.ite_none_right_eq_some.mp ran
  cases same
  unfold signalStartCondition
  split <;> rfl

/-- The thread that runs a function is the one that was returned for it. -/
theorem running_mine (jobs : Jobs p) (at' : p.place t = .running call) : Ran p call ∧ p.newThread call = t := by
  have made := jobs.created (t := t) (by simp [at'])
  obtain ⟨other, serves, ran, _, follows, _⟩ := phase_follows (jobs.phase t made) (by simp [at', Rests, Starts])
  obtain rfl : call = other := by simpa [at', Follows] using follows
  exact ⟨ran, (jobs.served t call serves).2.1⟩

/-- A thread that is about to call a function calls the one that was set for it, which was not called before. -/
theorem callFunc_new (inv : ThreadPoolBookkeeping.Inv p) (at' : p.place t = .callFunc) :
    ∃ call, ¬ Ran p call ∧ call < p.calls ∧ p.newThread call = t ∧
      callThreadFunc p t = { p.goto t (.running call) with executed := p.executed ++ [(call, t)] } := by
  have made := inv.jobs.created (t := t) (by simp [at'])
  rcases inv.jobs.phase t made with ⟨_, _, rests⟩ | ⟨call, serves, ⟨_, _, _, rests⟩ | ⟨new, _, set, _⟩ | ⟨_, _, follows, _⟩⟩
  · simp [at', Rests] at rests
  · simp [at', Rests] at rests
  · obtain ⟨below, mine, _⟩ := inv.jobs.served t call serves
    refine ⟨call, new, below, mine, ?_⟩
    rw [callThreadFunc, if_pos (ThreadPoolBookkeeping.callFunc_sound inv at'), set]
  · simp [at', Follows] at follows

end

/-! ## The connections -/

/-- How far a connection is: its thread's function was not called, is running or has returned. -/
def Status (w : World) (k : Nat) (conn : ServerConn) : Prop :=
  (¬ Ran w.pool k ∧ w.heard k = [.connection k]) ∨
    Ran w.pool k ∧ w.pool.place (w.pool.newThread k) = .running k ∧
      w.heard k ++ (w.todo (w.pool.newThread k)).map (.event k conn.data) = script k conn ∨
    Ran w.pool k ∧ w.pool.place (w.pool.newThread k) ≠ .running k ∧ w.heard k = script k conn

/-- The server thread is ahead of the pool by the connection that it has accepted and not given to a thread. -/
structure Inv (w : World) : Prop where
  pool : ThreadPoolBookkeeping.Inv w.pool
  ahead : w.conns.length = w.pool.calls + if w.place = .handler ∨ w.place = .runThread then 1 else 0
  known : ∀ called ∈ w.trace, called.about < w.conns.length
  status : ∀ k conn, w.conns[k]? = some conn → Status w k conn

section
variable {w w' : World} {k t : Nat} {conn : ServerConn}

theorem status_frame (status : Status w k conn) (same : Same w.pool w'.pool k) (heard : w'.heard k = w.heard k)
    (todo : w.pool.place (w.pool.newThread k) = .running k → w'.todo (w.pool.newThread k) = w.todo (w.pool.newThread k)) :
    Status w' k conn := by
  obtain ⟨ran, threads⟩ := same
  rcases status with ⟨new, said⟩ | ⟨old, at', said⟩ | ⟨old, at', said⟩
  · exact .inl ⟨fun old => new (ran.mp old), by rw [heard, said]⟩
  · obtain ⟨thread, running⟩ := threads old
    exact .inr (.inl ⟨ran.mpr old, by rw [thread]; exact running.mpr at', by rw [heard, thread, todo at', said]⟩)
  · obtain ⟨thread, running⟩ := threads old
    exact .inr (.inr ⟨ran.mpr old, by rw [thread]; exact fun now => at' (running.mp now), by rw [heard, said]⟩)

theorem filter_other {trace : List Called} {called : Called} (other : called.about ≠ k) :
    (trace ++ [called]).filter (fun called => called.about = k) = trace.filter fun called => called.about = k := by
  simp [other]

theorem filter_own {trace : List Called} {called : Called} (own : called.about = k) :
    (trace ++ [called]).filter (fun called => called.about = k) = trace.filter (fun called => called.about = k) ++ [called] := by
  simp [own]

/-- A connection that is not given to a thread yet has not been read. -/
theorem not_ran (inv : Inv w) (late : w.pool.calls ≤ k) : ¬ Ran w.pool k := fun ran =>
  absurd (inv.pool.jobs.ran ran).1 (Nat.not_lt_of_le late)

theorem step_inv {a : Act} (inv : Inv w) (ran : step w a = some w') : Inv w' := by
  cases a with
  | accept errno residue garbage stream =>
    obtain ⟨at', ran⟩ := Option.ite_none_right_eq_some.mp ran
    obtain ⟨events, _, rfl⟩ := Option.map_eq_some_iff.mp ran
    have ahead := inv.ahead
    rw [at'] at ahead
    refine ⟨inv.pool, by simpa using ahead, ?_, fun k conn found => ?_⟩
    · refine List.forall_mem_append.mpr ⟨fun called member => ?_, by simp [Called.about]⟩
      exact (inv.known called member).trans (by simp)
    · by_cases old : k < w.conns.length
      · rw [List.getElem?_append_left old] at found
        exact status_frame (inv.status k conn found) same_refl (filter_other (Nat.ne_of_gt old)) fun _ => rfl
      · obtain rfl : k = w.conns.length := by
          have inside := (List.getElem?_eq_some_iff.mp found).1
          simp only [List.length_append, List.length_singleton] at inside
          omega
        have nothing : w.heard w.conns.length = [] :=
          List.filter_eq_nil_iff.mpr fun called member => by simpa using Nat.ne_of_lt (inv.known called member)
        have new : ¬ Ran w.pool w.conns.length := not_ran inv (by simp at ahead; omega)
        exact .inl ⟨new, (filter_own rfl).trans (congrArg (· ++ [Called.connection w.conns.length]) nothing)⟩
  | setUserData data =>
    obtain ⟨at', ran⟩ := Option.ite_none_right_eq_some.mp ran
    cases ran
    have ahead := inv.ahead
    rw [at'] at ahead
    refine ⟨inv.pool, by simpa [at'] using ahead, by simpa using inv.known, fun k conn found => ?_⟩
    rw [List.getElem?_modify] at found
    obtain ⟨before, old, changed⟩ := Option.map_eq_some_iff.mp found
    by_cases mine : w.conns.length - 1 = k
    · have new : ¬ Ran w.pool k := not_ran inv (by simp at ahead; omega)
      rcases inv.status k before old with ⟨_, said⟩ | ⟨ran, _⟩ | ⟨ran, _⟩
      · exact .inl ⟨new, said⟩
      · exact absurd ran new
      · exact absurd ran new
    · simp only [mine, if_false] at changed
      subst changed
      exact status_frame (inv.status k before old) same_refl rfl fun _ => rfl
  | handled =>
    obtain ⟨at', ran⟩ := Option.ite_none_right_eq_some.mp ran
    cases ran
    exact ⟨inv.pool, by simpa [at'] using inv.ahead, inv.known,
      fun k conn found => status_frame (inv.status k conn found) same_refl rfl fun _ => rfl⟩
  | runThread created =>
    obtain ⟨at', ran⟩ := Option.ite_none_right_eq_some.mp ran
    split at ran
    · rename_i pool taken
      cases ran
      have kept := ThreadPoolBookkeeping.step_inv (a := .runThread created) inv.pool trivial
        (show ThreadPool.step w.pool (.runThread created) = some pool by simp [ThreadPool.step, taken])
      refine ⟨kept, ?_, inv.known, fun k conn found =>
        status_frame (inv.status k conn found) (same_runThread inv.pool taken) rfl fun _ => rfl⟩
      simpa [at', calls_runThread inv.pool taken] using inv.ahead
    · cases ran
  | setFunction =>
    obtain ⟨at', ran⟩ := Option.ite_none_right_eq_some.mp ran
    obtain ⟨pool, set, rfl⟩ := Option.map_eq_some_iff.mp ran
    have kept := ThreadPoolBookkeeping.step_inv (a := .setFunction (w.conns.length - 1)) inv.pool trivial set
    refine ⟨kept, ?_, inv.known, fun k conn found =>
      status_frame (inv.status k conn found) (same_setFunction set) rfl fun _ => rfl⟩
    simpa [at', calls_setFunction set] using inv.ahead
  | work t wakes =>
    obtain ⟨pool, worked, rfl⟩ := Option.map_eq_some_iff.mp ran
    have kept := ThreadPoolBookkeeping.step_inv (a := .work t wakes) inv.pool trivial worked
    rcases work_cases worked with ⟨at', rfl⟩ | ⟨⟨calls, newThread, _, executed⟩, ⟨before, behind⟩, others⟩
    · obtain ⟨call, new, below, mine, called⟩ := callFunc_new inv.pool at'
      have now : (callThreadFunc w.pool t).place t = .running call := by
        rw [called]
        exact Function.update_self ..
      rw [now]
      refine ⟨kept, by rw [called]; exact inv.ahead, inv.known, fun k conn found => ?_⟩
      by_cases this : k = call
      · -- the function starts with all that it will call the handler with
        subst this
        rcases inv.status k conn found with ⟨_, said⟩ | ⟨ran, _⟩ | ⟨ran, _⟩
        · refine .inr (.inl ⟨?_, ?_, ?_⟩)
          · rw [called]
            simp [Ran]
          · rw [called]
            change Function.update w.pool.place t (.running k) (w.pool.newThread k) = _
            rw [mine, Function.update_self]
          · rw [called]
            change w.heard k ++ (Function.update w.todo t (w.events k) (w.pool.newThread k)).map _ = _
            rw [mine, Function.update_self, said, World.events, found]
            rfl
        · exact absurd ran new
        · exact absurd ran new
      · refine status_frame (inv.status k conn found) ?_ rfl fun running => ?_
        · rw [called]
          refine ⟨by simp [Ran, this], fun _ => ⟨rfl, ?_⟩⟩
          change Function.update w.pool.place t (.running call) (w.pool.newThread k) = .running k ↔ _
          by_cases self : w.pool.newThread k = t
          · rw [self, Function.update_self, at']
            simpa using Ne.symm this
          · rw [Function.update_of_ne self]
        · refine Function.update_of_ne ?_ ..
          rintro self
          rw [self, at'] at running
          cases running
    · have same : ∀ call, Same w.pool pool call := by
        intro call
        refine ⟨by rw [Ran, executed, Ran], fun _ => ⟨by rw [newThread], ?_⟩⟩
        by_cases self : w.pool.newThread call = t
        · rw [self]
          exact iff_of_false (behind call) (before call)
        · rw [others _ self]
      split
      · rename_i call at'
        exact absurd at' (behind call)
      · refine ⟨kept, by simpa [calls] using inv.ahead, inv.known, fun k conn found => ?_⟩
        exact status_frame (inv.status k conn found) (same k) rfl fun _ => rfl
  | handle t =>
    simp only [step] at ran
    split at ran
    · rename_i call event rest at' next
      cases ran
      obtain ⟨old, mine⟩ := running_mine inv.pool.jobs at'
      have below := (inv.pool.jobs.ran old).1
      refine ⟨inv.pool, inv.ahead, ?_, fun k conn found => ?_⟩
      · refine List.forall_mem_append.mpr ⟨inv.known, ?_⟩
        have := inv.ahead
        simp only [List.mem_singleton, forall_eq, Called.about]
        omega
      · by_cases this : k = call
        · subst this
          rcases inv.status k conn found with ⟨new, _⟩ | ⟨_, _, said⟩ | ⟨_, other, _⟩
          · exact absurd old new
          · refine .inr (.inl ⟨old, by rw [mine]; exact at', ?_⟩)
            have heard : ({ w with todo := Function.update w.todo t rest, trace := w.trace ++ [.event k (w.data k) event] } : World).heard k =
                w.heard k ++ [.event k (w.data k) event] := filter_own rfl
            have found : w.conns[k]? = some conn := found
            rw [mine, next] at said
            rw [heard, mine, ← said, World.data, found]
            simp
          · rw [mine] at other
            exact absurd at' other
        · refine status_frame (inv.status k conn found) same_refl (filter_other (Ne.symm this)) fun running => ?_
          refine Function.update_of_ne ?_ ..
          rintro self
          rw [self, at'] at running
          cases running
          exact this rfl
    · cases ran
  | returns t =>
    obtain ⟨nothing, ran⟩ := Option.ite_none_right_eq_some.mp ran
    obtain ⟨pool, returned, rfl⟩ := Option.map_eq_some_iff.mp ran
    have kept := ThreadPoolBookkeeping.step_inv (a := .returns t ()) inv.pool trivial returned
    unfold functionReturns at returned
    split at returned
    · rename_i call at'
      cases returned
      obtain ⟨old, mine⟩ := running_mine inv.pool.jobs at'
      refine ⟨kept, inv.ahead, inv.known, fun k conn found => ?_⟩
      have place : ∀ call, Place.running call ≠ if w.pool.isDetached then Place.clearFunc else .lockJoinState := by
        intro call
        split <;> simp
      by_cases this : k = call
      · -- all of its calls were made
        subst this
        rcases inv.status k conn found with ⟨new, _⟩ | ⟨_, _, said⟩ | ⟨_, other, _⟩
        · exact absurd old new
        · rw [mine, nothing, List.map_nil, List.append_nil] at said
          refine .inr (.inr ⟨old, ?_, said⟩)
          change Function.update w.pool.place t _ (w.pool.newThread k) ≠ _
          rw [mine, Function.update_self]
          exact (place k).symm
        · rw [mine] at other
          exact absurd at' other
      · refine status_frame (inv.status k conn found) ⟨Iff.rfl, fun _ => ⟨rfl, ?_⟩⟩ rfl fun _ => rfl
        change Function.update w.pool.place t _ (w.pool.newThread k) = _ ↔ _
        by_cases self : w.pool.newThread k = t
        · rw [self, Function.update_self, at']
          exact iff_of_false (place k).symm (by simpa using Ne.symm this)
        · rw [Function.update_of_ne self]
    · cases returned

theorem start_inv : Inv start where
  pool := ThreadPoolBookkeeping.create_inv true sockThreadpoolSize
  ahead := rfl
  known := by simp [start]
  status := by simp [start]

theorem status_heard (status : Status w k conn) : w.heard k <+: script k conn := by
  rcases status with ⟨_, said⟩ | ⟨_, _, said⟩ | ⟨_, _, said⟩
  · rw [said]
    exact List.cons_prefix_cons.mpr ⟨rfl, List.nil_prefix⟩
  · rw [← said]
    exact List.prefix_append _ _
  · rw [said]

/-- Nothing is left to do: the server waits for a peer, and the pool threads have no step. -/
def Quiet (w : World) : Prop := w.place = .accept ∧ ThreadPoolBookkeeping.Quiet w.pool

theorem status_quiet (inv : Inv w) (quiet : Quiet w) (found : w.conns[k]? = some conn) : w.heard k = script k conn := by
  obtain ⟨waits, quiet⟩ := quiet
  have below : k < w.pool.calls := by
    have inside := (List.getElem?_eq_some_iff.mp found).1
    have ahead := inv.ahead
    simp only [waits] at ahead
    simp at ahead
    omega
  have old : Ran w.pool k := List.mem_map.mpr ⟨_, inv.pool.bookkept.every quiet k below, rfl⟩
  rcases inv.status k conn found with ⟨new, _⟩ | ⟨_, at', _⟩ | ⟨_, _, said⟩
  · exact absurd old new
  · have returns := quiet.2.1 (w.pool.newThread k) ()
    simp [functionReturns, at'] at returns
  · exact said

end

/-- A peer that sends one line and closes. -/
private def ping : Text := [112, 105, 110, 103]

private theorem ping_events : connectionThreadFunc 2 (fun _ => []) [] (ping ++ [LF]) = some [.message ping, .disconnect] := by
  rw [connectionThreadFunc, Sock.loop_line (by decide) (by decide) (by decide) (by decide) (by decide), Sock.loop_end]
  decide

private def served : List Act :=
  [.setUserData (some 7), .handled, .runThread true, .setFunction, .work 4 .nobody, .work 4 .nobody, .work 4 .nobody, .handle 4,
    .handle 4, .returns 4, .work 4 .nobody]

end VoxiUtil.SockServer
