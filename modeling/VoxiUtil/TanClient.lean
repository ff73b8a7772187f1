import VoxiUtil.BlockLedger
import VoxiUtil.Tcpip

/-!
The clients of `tanClient.c` on the connections of `tcpip.c`, with the blocks and the
sockets they hold. What the system and the peer do to a `tanClient_connect` is a
parameter of the call. Errors are values; their own blocks are not counted here.
-/
namespace VoxiUtil.TanClient
open VoxiUtil.CString VoxiUtil.BlockHeap VoxiUtil.Tcpip
open VoxiUtil.Err (Error errNew errErrno voxiSockError voxiSockError_copied)

/-- `errno` and its text. -/
structure Failure where
  errno : Int32
  strerror : Text
deriving DecidableEq

def EINTR : Int32 := 4

/-- What the calls that `tanClient_connect` makes find: whether there is memory for the client and for the connection, the address of
    the host or `h_errno`, the failures of `socket` and `connect`, what `write` returns and what the reads meet. -/
structure System where
  clientMemory : Bool
  hostinfo : Except Int32 Text
  connectionMemory : Bool
  socket : Option Failure
  connect : Option Failure
  write : Int
  inputs : List Input
deriving DecidableEq

/-- The bytes of an address and the port. -/
structure Address where
  sin_addr : Text
  port : UInt16
deriving DecidableEq

/-- What a block has: a `sTANClient` or a `sTCPConnection`, with `none` for a field that was not written, or a text. -/
inductive Block where
  | client (connection : Option Nat) (protocolVersion id : Option UInt32)
  | connection (addr : Option Address) (socket : Option Nat)
  | string (text : Text)
deriving DecidableEq

/-- A socket that is open: where it is connected to, what was written to it and what its next reads meet. -/
structure Socket where
  peer : Option Address
  sent : Text
  inputs : List Input
deriving DecidableEq

structure World where
  blocks : List (Option Block)
  sockets : List (Option Socket)
deriving DecidableEq

/-- Why a call does not return: an assertion fails or a pointer or descriptor is used that stands for nothing, or a `recv` waits. -/
inductive Stop where
  | fault
  | waiting
deriving DecidableEq

def tcpipUnspecified : Int32 := 0

/-- `voxi_sock_error`, with the block of a text that is copied. -/
def hostError (world : World) (err : Int32) : Text × World :=
  let (text, copied) := voxiSockError err
  (text, if copied then { world with blocks := world.blocks ++ [some (.string text)] } else world)

/-- `emalloc`. -/
def emalloc (memory : Bool) (world : World) (block : Block) (size : Nat) : Except Error Nat × World :=
  if memory then (.ok world.blocks.length, { world with blocks := world.blocks ++ [some block] })
  else (.error (errNew .memory 0 none (lit "Out of memory when allocating " ++ printInt (Int32.ofNat size) ++ lit " bytes")), world)

def free (world : World) (pointer : Nat) : Except Stop World :=
  if (lookup world.blocks pointer).isSome then .ok { world with blocks := world.blocks.set pointer none } else .error .fault

def close (world : World) (socket : Nat) : Except Stop World :=
  if (lookup world.sockets socket).isSome then .ok { world with sockets := world.sockets.set socket none } else .error .fault

/-- The connection behind a pointer and its socket. -/
def socketOf (world : World) (connection : Nat) : Except Stop Nat :=
  match lookup world.blocks connection with
  | some (.connection _ (some socket)) => .ok socket
  | _ => .error .fault

/-- The open socket of a connection. -/
def opened (world : World) (connection : Nat) : Except Stop (Nat × Socket) := do
  let socket ← socketOf world connection
  match lookup world.sockets socket with
  | some contents => .ok (socket, contents)
  | none => .error .fault

section
variable (system : System) (sizeofConnection sizeofClient : Nat)

/-- `tcp_connectName`: an error, or the connection. -/
def tcpConnectName (world : World) (hostName : Text) (port : UInt16) : Except Stop (Except Error Nat × World) :=
  match system.hostinfo with
  | .error h_errno =>
    let (reason, world) := hostError world h_errno
    return (.error (errNew .tcpip tcpipUnspecified (some (errNew .unknown 0 none reason))
      (lit "Failed to find the host '" ++ hostName ++ lit "'.")), world)
  | .ok address =>
    match emalloc system.connectionMemory world (.connection (some ⟨address, port⟩) none) sizeofConnection with
    | (.error error, world) => .ok (.error (errNew .tcpip tcpipUnspecified (some error)
        (lit "Failed to allocate memory for the connection")), world)
    | (.ok connection, world) =>
      match system.socket with
      | some failure => do
        let world ← free world connection
        return (.error (errNew .tcpip tcpipUnspecified (some (errErrno failure.errno failure.strerror))
          (lit "Failed to create a TCP socket.")), world)
      | none =>
        let socket := world.sockets.length
        let world : World := ⟨world.blocks.set connection (some (.connection (some ⟨address, port⟩) (some socket))),
          world.sockets ++ [some ⟨some ⟨address, port⟩, [], system.inputs⟩]⟩
        match system.connect.filter fun failure => failure.errno != EINTR with
        | some failure => do
          let world ← close world socket
          let world ← free world connection
          return (.error (errNew .tcpip tcpipUnspecified (some (errErrno failure.errno failure.strerror))
            (lit "Failed to connect to the server.")), world)
        | none => .ok (.ok connection, world)

/-- `tcp_disconnect`. -/
def tcpDisconnect (world : World) (connection : Nat) : Except Stop World := do
  let socket ← socketOf world connection
  let world ← close world socket
  free world connection

/-- `tcp_write`, which never returns an error. -/
def tcpWrite (world : World) (connection : Nat) (data : Text) : Except Stop (Option Error × World) := do
  let (socket, contents) ← opened world connection
  if system.write = data.length then
    return (none, { world with sockets := world.sockets.set socket (some { contents with sent := contents.sent ++ data }) })
  else throw .fault

/-- `tcp_read` on a connection. -/
def tcpRead (world : World) (connection size : Nat) : Except Stop (Option Error × Text × World) := do
  let (socket, contents) ← opened world connection
  match Tcpip.tcpRead size contents.inputs with
  | .waiting => throw .waiting
  | .fault => throw .fault
  | .returned error data rest =>
    return (error, data, { world with sockets := world.sockets.set socket (some { contents with inputs := rest }) })

def currentProtocolVersion : UInt32 := 0

/-- Four bytes as the machine has them in an `uint32_t`. -/
def word (data : Text) : UInt32 := UInt32.ofNat (data.foldr (fun b value => value * 256 + b.toNat) 0)

/-- The same bytes in the other order. -/
def ntohl (value : UInt32) : UInt32 :=
  word [(value >>> 24).toUInt8, (value >>> 16).toUInt8, (value >>> 8).toUInt8, value.toUInt8]

/-- The last part of `tanClient_connect` on an error: from `CONNECT_FAIL_3` or from `CONNECT_FAIL_2` on. -/
def fail3 (world : World) (tan connection : Nat) (error : Error) : Except Stop (Except Error Nat × World) := do
  let world ← tcpDisconnect world connection
  let world ← free world tan
  return (.error error, world)

def fail2 (world : World) (tan : Nat) (error : Error) : Except Stop (Except Error Nat × World) := do
  let world ← free world tan
  return (.error error, world)

/-- The version negotiation and the id of `tanClient_connect`. -/
def negotiate (world : World) (tan connection : Nat) : Except Stop (Except Error Nat × World) := do
  let (error, world) ← tcpWrite system world connection [0, 0, 0, 0]
  if let some error := error then
    return ← fail3 world tan connection (errNew .tcpip tcpipUnspecified (some error) (lit "Failed to send my protocol version number"))
  let (error, versionPacket, world) ← tcpRead world connection 4
  if let some error := error then
    return ← fail3 world tan connection (errNew .tcpip tcpipUnspecified (some error) (lit "Failed to read server protocol version number"))
  let protocolVersion := if word versionPacket < currentProtocolVersion then word versionPacket else currentProtocolVersion
  let world : World := { world with blocks := world.blocks.set tan (some (.client (some connection) (some protocolVersion) none)) }
  let (error, id, world) ← tcpRead world connection 4
  if let some error := error then
    return ← fail3 world tan connection (errNew .tcpip tcpipUnspecified (some error) (lit "Failed to read my id number"))
  let world : World := { world with
    blocks := world.blocks.set tan (some (.client (some connection) (some protocolVersion) (some (ntohl (word id))))) }
  return (.ok tan, world)

/-- `tanClient_connect`: an error, or the client. -/
def tanClientConnect (world : World) (hostName : Text) (port : UInt16) : Except Stop (Except Error Nat × World) :=
  match emalloc system.clientMemory world (.client none none none) sizeofClient with
  | (.error error, world) => .ok (.error error, world)
  | (.ok tan, world) => do
    match ← tcpConnectName system sizeofConnection world hostName port with
    | (.error error, world) => fail2 world tan error
    | (.ok connection, world) =>
      negotiate system { world with blocks := world.blocks.set tan (some (.client (some connection) none none)) } tan connection

end

/-- `tanClient_disconnect`. -/
def tanClientDisconnect (world : World) (tan : Nat) : Except Stop World :=
  match lookup world.blocks tan with
  | some (.client (some connection) _ _) => do
    let world ← tcpDisconnect world connection
    free world tan
  | _ => .error .fault

/-- `tanClient_getMyID`, which has an `int` for the id. -/
def tanClientGetMyID (world : World) (tan : Nat) : Except Stop Int32 :=
  match lookup world.blocks tan with
  | some (.client _ _ (some id)) => .ok id.toInt32
  | _ => .error .fault

/-- A call by one who names its clients by their places. Nothing is done where it has none. -/
inductive Call where
  | connect (hostName : Text) (port : UInt16) (system : System)
  | disconnect (client : Nat)

/-- What the caller has: the world and the clients it holds. -/
structure Caller where
  world : World
  held : List Nat

def call (sizeofConnection sizeofClient : Nat) (caller : Caller) : Call → Except Stop Caller
  | .connect hostName port system => do
    match ← tanClientConnect system sizeofConnection sizeofClient caller.world hostName port with
    | (.error _, world) => return ⟨world, caller.held⟩
    | (.ok tan, world) => return ⟨world, tan :: caller.held⟩
  | .disconnect client =>
    match caller.held[client]? with
    | none => .ok caller
    | some tan => do
      let world ← tanClientDisconnect caller.world tan
      return ⟨world, caller.held.eraseIdx client⟩

/-- A client as the caller knows it: the address and the port, the id that the server gave and what the peer has sent behind it. -/
structure Client where
  address : Address
  id : UInt32
  unread : Text
deriving DecidableEq

/-- The clients and the texts that were lost. -/
structure Clients where
  clients : List Client
  lost : Nat
deriving DecidableEq

def bigEndian (data : Text) : Nat := data.foldl (fun value b => value * 256 + b.toNat) 0

/-- What the server's version and id come to, by the stream alone. -/
def received (address : Address) (inputs : List Input) : Except Stop (Option Client) :=
  match first 8 inputs with
  | .bytes => .ok (some ⟨address, UInt32.ofNat (bigEndian (((stream inputs).drop 4).take 4)), (stream inputs).drop 8⟩)
  | .failed => .ok none
  | .closed => .error .fault
  | .nothing => .error .waiting

/-- What a call of `tanClient_connect` comes to. -/
def answer (system : System) (port : UInt16) : Except Stop (Option Client) :=
  match system.clientMemory, system.hostinfo, system.connectionMemory, system.socket,
    system.connect.filter fun failure => failure.errno != EINTR with
  | true, .ok address, true, none, none => if system.write = 4 then received ⟨address, port⟩ system.inputs else .error .fault
  | _, _, _, _, _ => .ok none

/-- The texts that are lost when the resolver gives a number that `voxi_sock_error` has no text for. -/
def lost (system : System) : Nat :=
  match system.clientMemory, system.hostinfo with
  | true, .error h_errno => if h_errno ∈ [1, 2, 3, 4] then 0 else 1
  | _, _ => 0

/-- What a call means for them. -/
def meaning (state : Clients) : Call → Except Stop Clients
  | .connect _ port system => do
    let client ← answer system port
    return ⟨client.toList ++ state.clients, state.lost + lost system⟩
  | .disconnect client => .ok { state with clients := state.clients.eraseIdx client }

/-! ## Two reads in a row -/

section
variable {turns remain size n : Nat} {data data' : Text} {inputs rest : List Input}

/-- What a longer read meets is what the rest of it meets behind a read that got its bytes. -/
theorem readLoop_rest (positive : 0 < remain) (int : remain ≤ 2147483647) (more : 0 < n)
    (ran : readLoop turns remain data inputs = .returned none data' rest) : first (remain + n) inputs = first n rest := by
  induction inputs generalizing remain turns data with
  | nil =>
    cases turns with
    | zero => cases ran
    | succ turns => cases ran
  | cons input inputs ih =>
    cases turns with
    | zero => cases ran
    | succ turns =>
      cases input with
      | closed => cases ran
      | failed errno strerror => cases ran
      | data segment =>
        rw [readLoop_data positive int] at ran
        by_cases short : segment.bytes.length < remain
        · rw [if_pos short] at ran
          have later := ih (by omega) (by omega) ran
          rw [first, if_neg (by omega), ← later]
          congr 1
          omega
        · rw [if_neg short] at ran
          cases ran
          by_cases longer : remain < segment.bytes.length
          · rw [leftOver, dif_pos longer, List.singleton_append, first, first, List.length_drop]
            by_cases fills : remain + n ≤ segment.bytes.length
            · rw [if_pos fills, if_pos (by omega)]
            · rw [if_neg fills, if_neg (by omega)]
              congr 1
              omega
          · rw [leftOver, dif_neg longer, List.nil_append, first, if_neg (by omega)]
            congr 1
            omega

/-- And without them the longer read meets the same. -/
theorem first_same (other : first remain inputs ≠ .bytes) : first (remain + n) inputs = first remain inputs := by
  induction inputs generalizing remain with
  | nil => rfl
  | cons input inputs ih =>
    cases input with
    | closed => rfl
    | failed errno strerror => rfl
    | data segment =>
      rw [first] at other ⊢
      by_cases fills : remain ≤ segment.bytes.length
      · exact absurd (if_pos fills) other
      · rw [if_neg fills] at other
        rw [if_neg (by omega), first, if_neg fills, ← ih other]
        congr 1
        omega

/-- A read of four bytes. -/
theorem tcpRead_four (inputs : List Input) : match first 4 inputs with
    | .nothing => Tcpip.tcpRead 4 inputs = .waiting
    | .closed => Tcpip.tcpRead 4 inputs = .fault
    | .failed => ∃ error more rest, Tcpip.tcpRead 4 inputs = .returned (some error) more rest
    | .bytes => ∃ more rest, Tcpip.tcpRead 4 inputs = .returned none more rest ∧ more.length = 4 ∧
        stream inputs = more ++ stream rest ∧ first 8 inputs = first 4 rest := by
  have ran := @readLoop_first (inputs.length + 1) 4 [] inputs (by decide) (by decide) (Nat.lt_succ_self _)
  cases comes : first 4 inputs with
  | nothing =>
    rw [comes] at ran
    exact ran
  | closed =>
    rw [comes] at ran
    exact ran
  | failed =>
    rw [comes] at ran
    obtain ⟨error, more, rest, ran, _⟩ := ran
    exact ⟨error, more, rest, ran⟩
  | bytes =>
    rw [comes] at ran
    obtain ⟨more, rest, ran, length, joined⟩ := ran
    exact ⟨more, rest, ran, length, joined, readLoop_rest (n := 4) (by decide) (by decide) (by decide) ran⟩

theorem ntohl_word (data : Text) (four : data.length = 4) : ntohl (word data) = UInt32.ofNat (bigEndian data) := by
  obtain ⟨a, b, c, d, rfl⟩ : ∃ a b c d, data = [a, b, c, d] := by
    match data, four with
    | [a, b, c, d], _ => exact ⟨a, b, c, d, rfl⟩
  have := a.toNat_lt
  have := b.toNat_lt
  have := c.toNat_lt
  have := d.toNat_lt
  have whole : (((d.toNat * 256 + c.toNat) * 256 + b.toNat) * 256 + a.toNat) % 4294967296 =
      ((d.toNat * 256 + c.toNat) * 256 + b.toNat) * 256 + a.toNat := by omega
  have second : (((d.toNat * 256 + c.toNat) * 256 + b.toNat) * 256 + a.toNat) / 256 % 256 = b.toNat := by omega
  have third : (((d.toNat * 256 + c.toNat) * 256 + b.toNat) * 256 + a.toNat) / 65536 % 256 = c.toNat := by omega
  have fourth : (((d.toNat * 256 + c.toNat) * 256 + b.toNat) * 256 + a.toNat) / 16777216 % 256 = d.toNat := by omega
  apply UInt32.toNat_inj.mp
  simp [ntohl, word, bigEndian, Nat.shiftRight_eq_div_pow, whole, second, third, fourth]

end

/-! ## A client behind all that was there -/

section
variable {blocks : List (Option Block)} {sockets : List (Option Socket)} {client : Option Block} {addr : Option Address}
  {contents : Socket} {system : System} {data : Text} {size : Nat} {error : Error}

theorem opened_new : opened ⟨blocks ++ [client, some (.connection addr (some sockets.length))], sockets ++ [some contents]⟩
    (blocks.length + 1) = .ok (sockets.length, contents) := by
  simp [opened, socketOf, bind, Except.bind]

theorem tcpWrite_new : tcpWrite system ⟨blocks ++ [client, some (.connection addr (some sockets.length))], sockets ++ [some contents]⟩
    (blocks.length + 1) data = if system.write = data.length then .ok (none, ⟨blocks ++ [client,
      some (.connection addr (some sockets.length))], sockets ++ [some { contents with sent := contents.sent ++ data }]⟩)
    else .error .fault := by
  simp only [tcpWrite, opened_new, bind, Except.bind, set_new]
  rfl

theorem tcpRead_new : tcpRead ⟨blocks ++ [client, some (.connection addr (some sockets.length))], sockets ++ [some contents]⟩
    (blocks.length + 1) size = match Tcpip.tcpRead size contents.inputs with
      | .waiting => .error .waiting
      | .fault => .error .fault
      | .returned error data rest => .ok (error, data, ⟨blocks ++ [client, some (.connection addr (some sockets.length))],
          sockets ++ [some { contents with inputs := rest }]⟩) := by
  simp only [tcpRead, opened_new, bind, Except.bind, set_new]
  rfl

theorem fail3_new {c : Block} : fail3 ⟨blocks ++ [some c, some (.connection addr (some sockets.length))], sockets ++ [some contents]⟩
    blocks.length (blocks.length + 1) error = .ok (.error error, ⟨blocks ++ [none, none], sockets ++ [none]⟩) := by
  simp [fail3, tcpDisconnect, socketOf, close, free, bind, Except.bind, pure, Except.pure]

theorem fail2_new {c : Block} (more : List (Option Block)) : fail2 ⟨blocks ++ some c :: more, sockets⟩ blocks.length error =
    .ok (.error error, ⟨blocks ++ none :: more, sockets⟩) := by
  simp [fail2, free, bind, Except.bind, pure, Except.pure]

theorem free_second {c : Option Block} {k : Block} : free ⟨blocks ++ [c, some k], sockets⟩ (blocks.length + 1) =
    .ok ⟨blocks ++ [c, none], sockets⟩ := by
  simp [free]

theorem close_new : close ⟨blocks, sockets ++ [some contents]⟩ sockets.length = .ok ⟨blocks, sockets ++ [none]⟩ := by
  simp [close]

/-- What a call leaves behind all that was there: the client, or as many texts as were lost and nothing else. -/
def Behind (blocks : List (Option Block)) (sockets : List (Option Socket)) (lost : Nat) (result : Except Error Nat × World) :
    Option Client → Prop
  | some client => lost = 0 ∧ ∃ inputs, stream inputs = client.unread ∧ result = (.ok blocks.length,
      ⟨blocks ++ [some (.client (some (blocks.length + 1)) (some 0) (some client.id)),
        some (.connection (some client.address) (some sockets.length))],
        sockets ++ [some ⟨some client.address, [0, 0, 0, 0], inputs⟩]⟩)
  | none => ∃ error nothing texts closed, result = (.error error, ⟨blocks ++ (List.replicate nothing none ++ texts),
      sockets ++ List.replicate closed none⟩) ∧ texts.length = lost ∧ ∀ text ∈ texts, text.isSome

/-- A call ends as its answer says. -/
def Answers (blocks : List (Option Block)) (sockets : List (Option Socket)) (lost : Nat)
    (run : Except Stop (Except Error Nat × World)) : Except Stop (Option Client) → Prop
  | .error stop => run = .error stop
  | .ok client => ∃ result, run = .ok result ∧ Behind blocks sockets lost result client

theorem answers_none (nothing closed : Nat) {run : Except Stop (Except Error Nat × World)}
    (ran : ∃ error, run = .ok (.error error, ⟨blocks ++ List.replicate nothing none, sockets ++ List.replicate closed none⟩)) :
    Answers blocks sockets 0 run (.ok none) := by
  obtain ⟨error, ran⟩ := ran
  exact ⟨_, ran, error, nothing, [], closed, by rw [List.append_nil], rfl, by simp⟩

/-- The server's version is never taken. -/
theorem no_less (version : UInt32) : ¬ version < currentProtocolVersion := by
  simp [currentProtocolVersion]

/-- The negotiation, by the eight bytes that come first. -/
theorem negotiate_answers {address : Address} (inputs : List Input) :
    Answers blocks sockets 0 (negotiate system ⟨blocks ++ [some (.client (some (blocks.length + 1)) none none),
      some (.connection (some address) (some sockets.length))], sockets ++ [some ⟨some address, [], inputs⟩]⟩ blocks.length
      (blocks.length + 1)) (if system.write = 4 then received address inputs else .error .fault) := by
  by_cases written : system.write = 4
  · have started : system.write = ([0, 0, 0, 0] : Text).length := written
    have version := tcpRead_four inputs
    rw [if_pos written, received]
    simp only [negotiate, tcpWrite_new, if_pos started, bind, Except.bind, tcpRead_new]
    cases comes : first 4 inputs with
    | nothing =>
      rw [comes] at version
      rw [show first 8 inputs = .nothing from (first_same (n := 4) (by simp [comes])).trans comes]
      simp [version, Answers]
    | closed =>
      rw [comes] at version
      rw [show first 8 inputs = .closed from (first_same (n := 4) (by simp [comes])).trans comes]
      simp [version, Answers]
    | failed =>
      rw [comes] at version
      obtain ⟨failure, data, rest, version⟩ := version
      rw [show first 8 inputs = .failed from (first_same (n := 4) (by simp [comes])).trans comes]
      simp only [version]
      exact answers_none 2 1 ⟨_, fail3_new⟩
    | bytes =>
      rw [comes] at version
      obtain ⟨data, rest, version, four, joined, later⟩ := version
      have id := tcpRead_four rest
      rw [later]
      simp only [version, set_new, tcpRead_new]
      cases next : first 4 rest with
      | nothing =>
        rw [next] at id
        simp [id, Answers]
      | closed =>
        rw [next] at id
        simp [id, Answers]
      | failed =>
        rw [next] at id
        obtain ⟨failure, data, rest, id⟩ := id
        simp only [id]
        exact answers_none 2 1 ⟨_, fail3_new⟩
      | bytes =>
        rw [next] at id
        obtain ⟨number, rest, id, size, behind, _⟩ := id
        have number' : ((stream inputs).drop 4).take 4 = number := by
          rw [joined, behind, List.drop_left' four, List.take_left' size]
        have unread : (stream inputs).drop 8 = stream rest := by
          rw [joined, behind, ← List.append_assoc, List.drop_left' (by rw [List.length_append, four, size])]
        simp only [id, set_new, number', unread]
        refine ⟨_, rfl, rfl, rest, rfl, ?_⟩
        rw [ntohl_word number size, if_neg (no_less _)]
        rfl
  · have other : ¬ system.write = ([0, 0, 0, 0] : Text).length := written
    rw [if_neg written]
    simp only [negotiate, tcpWrite_new, if_neg other, bind, Except.bind]
    rfl

/-- A host that is not found. -/
theorem hostError_cases (world : World) (h_errno : Int32) :
    (h_errno ∈ [1, 2, 3, 4] ∧ ∃ text, hostError world h_errno = (text, world)) ∨
      (h_errno ∉ [1, 2, 3, 4] ∧ ∃ text, hostError world h_errno =
        (text, { world with blocks := world.blocks ++ [some (.string text)] })) := by
  have copied := voxiSockError_copied h_errno
  by_cases other : h_errno ∈ [1, 2, 3, 4]
  · refine .inl ⟨other, (voxiSockError h_errno).1, ?_⟩
    simp only [hostError, if_neg (copied.not.mpr (not_not.mpr other))]
  · refine .inr ⟨other, (voxiSockError h_errno).1, ?_⟩
    simp only [hostError, if_pos (copied.mpr other)]

/-- `tanClient_connect`, by each thing that can fail. -/
theorem connect_answers (blocks : List (Option Block)) (sockets : List (Option Socket)) (system : System)
    (sizeofConnection sizeofClient : Nat) (hostName : Text) (port : UInt16) :
    Answers blocks sockets (lost system)
      (tanClientConnect system sizeofConnection sizeofClient ⟨blocks, sockets⟩ hostName port) (answer system port) := by
  obtain ⟨clientMemory, hostinfo, connectionMemory, socket, connect, write, inputs⟩ := system
  cases clientMemory with
  | false => exact answers_none 0 0 ⟨_, by simp [tanClientConnect, emalloc]; rfl⟩
  | true =>
    cases hostinfo with
    | error h_errno =>
      rcases hostError_cases ⟨blocks ++ [some (.client none none none)], sockets⟩ h_errno with
        ⟨known, text, found⟩ | ⟨unknown, text, found⟩
      · simp only [lost, if_pos known, tanClientConnect, tcpConnectName, emalloc, found, if_true, bind, Except.bind, pure, Except.pure]
        exact answers_none 1 0 ⟨_, by simpa using fail2_new []⟩
      · simp only [lost, if_neg unknown, tanClientConnect, tcpConnectName, emalloc, found, if_true, bind, Except.bind, pure,
          Except.pure, List.append_assoc, List.singleton_append, fail2_new]
        exact ⟨_, rfl, _, 1, [some (.string text)], 0, by rw [List.replicate_zero, List.append_nil]; rfl, rfl, by simp⟩
    | ok address =>
      cases connectionMemory with
      | false =>
        simp only [tanClientConnect, tcpConnectName, emalloc, if_true, bind, Except.bind, pure, Except.pure]
        exact answers_none 1 0 ⟨_, by simpa using fail2_new []⟩
      | true =>
        cases socket with
        | some failure =>
          simp only [tanClientConnect, tcpConnectName, emalloc, if_true, bind, Except.bind, pure, Except.pure, List.append_assoc,
            List.singleton_append, List.length_append, List.length_singleton, free_second]
          exact answers_none 2 0 ⟨_, by simpa using fail2_new [none]⟩
        | none =>
          cases refused : connect.filter fun failure => failure.errno != EINTR with
          | some failure =>
            simp only [answer, refused, lost, tanClientConnect, tcpConnectName, emalloc, if_true, bind, Except.bind, pure,
              Except.pure, List.append_assoc, List.singleton_append, List.length_append, List.length_singleton, set_second,
              close_new, free_second]
            exact answers_none 2 1 ⟨_, fail2_new [none]⟩
          | none =>
            simp only [answer, refused, lost, tanClientConnect, tcpConnectName, emalloc, if_true, bind, Except.bind,
              List.append_assoc, List.singleton_append, List.length_append, List.length_singleton, set_second, set_new]
            exact negotiate_answers inputs

end

/-! ## Runs -/

/-- A client with its blocks and its socket. -/
structure Entry where
  tan : Nat
  connection : Nat
  socket : Nat
  client : Client

def Laid (world : World) (entry : Entry) : Prop :=
  lookup world.blocks entry.tan = some (.client (some entry.connection) (some 0) (some entry.client.id)) ∧
  lookup world.blocks entry.connection = some (.connection (some entry.client.address) (some entry.socket)) ∧
  ∃ inputs, lookup world.sockets entry.socket = some ⟨some entry.client.address, [0, 0, 0, 0], inputs⟩ ∧
    stream inputs = entry.client.unread

/-- The blocks in use are those of the clients and the lost texts, and the open sockets are the clients'. -/
structure Held (world : World) (entries : List Entry) (texts : List Nat) : Prop where
  laid : ∀ entry ∈ entries, Laid world entry
  blocks : Owned world.blocks (entries.flatMap (fun entry => [entry.tan, entry.connection]) ++ texts)
  sockets : Owned world.sockets (entries.map (·.socket))

def Stands (caller : Caller) (state : Clients) : Prop :=
  ∃ entries texts, Held caller.world entries texts ∧ caller.held = entries.map (·.tan) ∧
    state.clients = entries.map (·.client) ∧ state.lost = texts.length

section
variable {world world' : World} {entry : Entry} {entries : List Entry} {texts : List Nat} {caller : Caller} {state : Clients}

theorem laid_same (laid : Laid world entry)
    (blocks : ∀ a, a = entry.tan ∨ a = entry.connection → lookup world'.blocks a = lookup world.blocks a)
    (sockets : lookup world'.sockets entry.socket = lookup world.sockets entry.socket) : Laid world' entry := by
  obtain ⟨tan, connection, inputs, socket, unread⟩ := laid
  exact ⟨by rw [blocks _ (.inl rfl), tan], by rw [blocks _ (.inr rfl), connection], inputs, by rw [sockets, socket], unread⟩

/-- Nothing of what is there changes when something comes behind it. -/
theorem laid_grown (laid : Laid world entry) (blocks : world.blocks <+: world'.blocks) (sockets : world.sockets <+: world'.sockets) :
    Laid world' entry := by
  obtain ⟨tan, connection, inputs, socket, unread⟩ := laid
  exact ⟨lookup_kept blocks tan, lookup_kept blocks connection, inputs, lookup_kept sockets socket, unread⟩

/-- A call that returns an error leaves the clients what they have. -/
theorem held_refused (nothing closed : Nat) {lost : List (Option Block)} (held : Held world entries texts)
    (present : ∀ text ∈ lost, text.isSome) :
    ∃ texts', Held ⟨world.blocks ++ (List.replicate nothing none ++ lost), world.sockets ++ List.replicate closed none⟩ entries texts' ∧
      texts'.length = texts.length + lost.length := by
  have blocks := owned_all (owned_gone held.blocks nothing) present
  rw [List.append_assoc, List.length_append, List.length_replicate] at blocks
  refine ⟨texts ++ List.range' (world.blocks.length + nothing) lost.length,
    ⟨fun entry member => laid_grown (held.laid entry member) (List.prefix_append _ _) (List.prefix_append _ _),
      owned_perm ?_ blocks, owned_gone held.sockets closed⟩, by simp⟩
  exact List.perm_append_comm.trans (by rw [List.append_assoc])

/-- One that returns a client. -/
theorem held_connected {client : Client} {inputs : List Input} (held : Held world entries texts)
    (unread : stream inputs = client.unread) :
    Held ⟨world.blocks ++ [some (.client (some (world.blocks.length + 1)) (some 0) (some client.id)),
        some (.connection (some client.address) (some world.sockets.length))],
        world.sockets ++ [some ⟨some client.address, [0, 0, 0, 0], inputs⟩]⟩
      (⟨world.blocks.length, world.blocks.length + 1, world.sockets.length, client⟩ :: entries) texts := by
  have blocks := @owned_all _ _ _ [some (.client (some (world.blocks.length + 1)) (some 0) (some client.id)),
    some (.connection (some client.address) (some world.sockets.length))] held.blocks (by simp)
  have sockets := @owned_all _ _ _ [some ⟨some client.address, [0, 0, 0, 0], inputs⟩] held.sockets (by simp)
  refine ⟨List.forall_mem_cons.mpr ⟨⟨lookup_new .., lookup_second .., inputs, lookup_new .., unread⟩, fun entry member =>
    laid_grown (held.laid entry member) (List.prefix_append _ _) (List.prefix_append _ _)⟩, ?_, ?_⟩
  · simpa [List.range'_succ] using blocks
  · simpa [List.range'_succ] using sockets

theorem held_disconnected (held : Held world (entry :: entries) texts) :
    ∃ world', tanClientDisconnect world entry.tan = .ok world' ∧ Held world' entries texts := by
  obtain ⟨tan, connection, inputs, socket, _⟩ := held.laid entry List.mem_cons_self
  have blocks : Owned world.blocks ([entry.connection, entry.tan] ++
      (entries.flatMap (fun entry => [entry.tan, entry.connection]) ++ texts)) := by
    refine owned_perm ?_ held.blocks
    rw [List.flatMap_cons, List.append_assoc]
    exact (List.Perm.swap _ _ _).append_right _
  have other : entry.connection ≠ entry.tan := by
    rintro same
    rw [same, tan] at connection
    cases connection
  have gone : Freed world.blocks [entry.connection, entry.tan] ((world.blocks.set entry.connection none).set entry.tan none) :=
    @freed_trans _ _ _ _ [entry.connection] [entry.tan] (freed_set connection)
      (freed_set (by rw [lookup_set_other other, tan]))
  have closed : Freed world.sockets [entry.socket] (world.sockets.set entry.socket none) := freed_set socket
  have sockets : Owned world.sockets ([entry.socket] ++ entries.map (·.socket)) := held.sockets
  refine ⟨⟨(world.blocks.set entry.connection none).set entry.tan none, world.sockets.set entry.socket none⟩, ?_,
    fun part member => ?_, owned_less blocks gone, owned_less sockets closed⟩
  · simp [tanClientDisconnect, tcpDisconnect, socketOf, close, free, tan, connection, socket, lookup_set_other other, bind, Except.bind]
  · refine laid_same (held.laid part (List.mem_cons_of_mem _ member)) (fun a own => owned_kept blocks gone ?_)
      (owned_kept sockets closed (List.mem_map_of_mem member))
    exact List.mem_append_left _ (List.mem_flatMap.mpr ⟨part, member, by simpa using own⟩)

theorem held_perm {entries' : List Entry} (same : entries.Perm entries') (held : Held world entries texts) :
    Held world entries' texts :=
  ⟨fun entry member => held.laid entry (same.mem_iff.mpr member),
    owned_perm ((same.flatMap_right _).append_right texts) held.blocks, owned_perm (same.map _) held.sockets⟩

/-- A call does what it means, and stops where it does. -/
theorem call_stands (sizeofConnection sizeofClient : Nat) (stands : Stands caller state) (c : Call) :
    match meaning state c with
    | .error stop => call sizeofConnection sizeofClient caller c = .error stop
    | .ok state' => ∃ caller', call sizeofConnection sizeofClient caller c = .ok caller' ∧ Stands caller' state' := by
  obtain ⟨entries, texts, held, pointers, clients, count⟩ := stands
  cases c with
  | connect hostName port system =>
    have ran := connect_answers caller.world.blocks caller.world.sockets system sizeofConnection sizeofClient hostName port
    cases answered : answer system port with
    | error stop =>
      rw [answered] at ran
      simp only [meaning, answered, call, bind, Except.bind]
      rw [show tanClientConnect system sizeofConnection sizeofClient caller.world hostName port = .error stop from ran]
    | ok client =>
      rw [answered] at ran
      obtain ⟨result, returned, behind⟩ := ran
      have returned : tanClientConnect system sizeofConnection sizeofClient caller.world hostName port = .ok result := returned
      simp only [meaning, answered, call, returned, bind, Except.bind, pure, Except.pure]
      cases client with
      | some client =>
        obtain ⟨nothing, inputs, unread, rfl⟩ := behind
        refine ⟨_, rfl, _, texts, held_connected held unread, ?_, ?_, ?_⟩
        · simp [pointers]
        · simp [clients]
        · simp [nothing, count]
      | none =>
        obtain ⟨error, nothing, lost', closed, rfl, same, present⟩ := behind
        obtain ⟨texts', held', length⟩ := held_refused nothing closed held present
        refine ⟨_, rfl, entries, texts', held', pointers, ?_, ?_⟩
        · simp [clients]
        · simp [length, count, same]
  | disconnect client =>
    have place : caller.held[client]? = entries[client]?.map (·.tan) := by rw [pointers, List.getElem?_map]
    by_cases inside : client < entries.length
    · have found : entries[client]? = some entries[client] := List.getElem?_eq_getElem inside
      obtain ⟨world', disconnected, held'⟩ := held_disconnected (held_perm (List.getElem_cons_eraseIdx_perm inside).symm held)
      refine ⟨⟨world', caller.held.eraseIdx client⟩, ?_, _, texts, held', ?_, ?_, count⟩
      · simp [call, place, found, disconnected, bind, Except.bind, pure, Except.pure]
      · simp [pointers, List.eraseIdx_map]
      · simp [clients, List.eraseIdx_map]
    · have beyond := Nat.le_of_not_lt inside
      refine ⟨caller, ?_, entries, texts, held, pointers, ?_, count⟩
      · simp [call, place, List.getElem?_eq_none beyond]
      · simp [clients, List.eraseIdx_of_length_le, beyond]

theorem stands_id (stands : Stands caller state) {i : Nat} {client : Client} (found : state.clients[i]? = some client) :
    ∃ tan, caller.held[i]? = some tan ∧ tanClientGetMyID caller.world tan = .ok client.id.toInt32 := by
  obtain ⟨entries, texts, held, pointers, clients, _⟩ := stands
  rw [clients, List.getElem?_map] at found
  obtain ⟨entry, place, rfl⟩ := Option.map_eq_some_iff.mp found
  obtain ⟨tan, _⟩ := held.laid entry (List.mem_of_getElem? place)
  refine ⟨entry.tan, by simp [pointers, place], ?_⟩
  simp [tanClientGetMyID, tan]

theorem run_stands (sizeofConnection sizeofClient : Nat) (calls : List Call) (stands : Stands caller state) :
    match calls.foldlM meaning state with
    | .error stop => calls.foldlM (call sizeofConnection sizeofClient) caller = .error stop
    | .ok state' => ∃ caller', calls.foldlM (call sizeofConnection sizeofClient) caller = .ok caller' ∧ Stands caller' state' := by
  induction calls generalizing caller state with
  | nil => exact ⟨caller, rfl, stands⟩
  | cons c calls ih =>
    have one := call_stands sizeofConnection sizeofClient stands c
    rw [List.foldlM_cons, List.foldlM_cons]
    cases meant : meaning state c with
    | error stop =>
      rw [meant] at one
      simp [one, bind, Except.bind]
    | ok between =>
      rw [meant] at one
      obtain ⟨caller', called, stands⟩ := one
      rw [called]
      exact ih stands

end

/-- A run from where nothing is open, for any calls, systems and peers: it stops where the calls' meaning does, and otherwise each
    client that the caller holds is connected to its address over a socket of its own, has sent its version and nothing else, gives
    the id that its server sent and will read what the peer has sent behind it. No other socket is open, and no other block is in use but
    a text for each host that was not found with a number that has none. -/
theorem clients_stand (sizeofConnection sizeofClient : Nat) (calls : List Call) :
    match calls.foldlM meaning ⟨[], 0⟩ with
    | .error stop => calls.foldlM (call sizeofConnection sizeofClient) ⟨⟨[], []⟩, []⟩ = .error stop
    | .ok state => ∃ caller, calls.foldlM (call sizeofConnection sizeofClient) ⟨⟨[], []⟩, []⟩ = .ok caller ∧ Stands caller state ∧
        ∀ (i : Nat) (client : Client), state.clients[i]? = some client →
          ∃ tan, caller.held[i]? = some tan ∧ tanClientGetMyID caller.world tan = .ok client.id.toInt32 := by
  have begun : Stands ⟨⟨[], []⟩, []⟩ ⟨[], 0⟩ :=
    ⟨[], [], ⟨by simp, by simpa using owned_nothing, by simpa using owned_nothing⟩, rfl, rfl, rfl⟩
  have ran := run_stands sizeofConnection sizeofClient calls begun
  cases meant : calls.foldlM meaning ⟨[], 0⟩ with
  | error stop =>
    rw [meant] at ran
    exact ran
  | ok state =>
    rw [meant] at ran
    obtain ⟨caller, done, stands⟩ := ran
    exact ⟨caller, done, stands, fun i client found => stands_id stands found⟩

end VoxiUtil.TanClient
