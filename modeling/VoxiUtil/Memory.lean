import Mathlib.Data.Finset.Card
import VoxiUtil.CString
import VoxiUtil.FreeList
import VoxiUtil.Limits
import VoxiUtil.Runs

/-!
The memory pool of `memory.c`, called by one thread. A block is named by its index;
`none` is a failed assertion, or what C does not define.
-/
namespace VoxiUtil.Memory
open VoxiUtil.CString VoxiUtil.FreeList VoxiUtil.Limits VoxiUtil.Runs

/-- The union of a header, by the member that was written last. -/
inductive BlockData
  | nextFree (next : Int)
  | used (index : Int)

/-- `sBlockHeader`; the manager is an address, or null. -/
structure BlockHeader where
  manager : Option Nat
  isFree : Bool
  data : BlockData
  allocatedFrom : Option Text

def BlockHeader.nextFree (header : BlockHeader) : Option Int :=
  match header.data with
  | .nextFree next => some next
  | .used _ => none

def BlockHeader.index (header : BlockHeader) : Option Int :=
  match header.data with
  | .nextFree _ => none
  | .used index => some index

/-- `sMemoryManager` at its address. `mutex` is how often the thread has locked it; `data` has the headers by their places. -/
structure SMemoryManager where
  address : Nat
  name : Option Text
  capacity : Int
  elementSize : UInt64
  blockSize : UInt64
  firstFree : Int
  mutex : Nat
  data : List BlockHeader

/-- What is printed on `stderr`. -/
inductive Message
  | full (name : Option Text) (dump : List (Int × Option Text))
  | freedTwice (name : Option Text) (block : Nat) (allocatedFrom : Option Text)
  | noManager (block : Nat)
  | overwritten (index : Int)

/-- `sizeof( sBlockHeader )`, two pointers and two `int`s. -/
def sizeofBlockHeader : UInt64 := 24

/-- Where the header of a block begins in the data. -/
def headerPlace (blockSize : UInt64) (index : Nat) : Nat := index * blockSize.toNat

/-- What `malloc` is asked for, a `size_t`. -/
def dataSize (blockSize : UInt64) (capacity : Int) : UInt64 := blockSize * UInt64.ofNat capacity.toNat

/-- The header of a block, which is named by its index: the headers of a manager lie apart, see `blocks_apart`. -/
def BLOCK_HEADER (manager : SMemoryManager) (index : Int) : Option BlockHeader :=
  if 0 ≤ index then manager.data[index.toNat]? else none

/-- The manager with another header in front of a block. -/
def setHeader (manager : SMemoryManager) (index : Int) (header : BlockHeader) : SMemoryManager :=
  { manager with data := manager.data.set index.toNat header }

def lock (manager : SMemoryManager) : SMemoryManager := { manager with mutex := manager.mutex + 1 }

/-- A mutex that is not locked cannot be unlocked. -/
def unlock (manager : SMemoryManager) : Option SMemoryManager :=
  if 0 < manager.mutex then some { manager with mutex := manager.mutex - 1 } else none

/-- The header of a new block. -/
def newHeader (result capacity i : Nat) : BlockHeader :=
  ⟨some result, true, .nextFree (if i + 1 = capacity then -1 else ((i + 1 : Nat) : Int)), none⟩

/-- The result is null when the manager, its mutex or its data could not be made. It is not defined what a header does
    that the loop writes outside the data. -/
def memManagerCreate (elementSize : UInt64) (name : Option Text) (capacity : Int) (result : Option Nat) (mutexMade dataMade : Bool) :
    Option (Option SMemoryManager) := do
  assert (0 < capacity)
  assert (0 < elementSize)
  match result with
  | none => return none
  | some address =>
    if mutexMade && dataMade then
      let blockSize := elementSize + sizeofBlockHeader
      assert (∀ i < capacity.toNat, headerPlace blockSize i + sizeofBlockHeader.toNat ≤ (dataSize blockSize capacity).toNat)
      return some ⟨address, name, capacity, elementSize, blockSize, 0, 0,
        (List.range capacity.toNat).map (newHeader address capacity.toNat)⟩
    else return none

/-- What a full manager asserts of a block and prints. -/
def dumpBlock (manager : SMemoryManager) (index : Nat) : Option (Int × Option Text) := do
  let header ← BLOCK_HEADER manager index
  assert (header.manager = some manager.address)
  assert (header.isFree = false)
  let used ← header.index
  assert (used = index)
  return (used, header.allocatedFrom)

/-- The result is null when the manager is full, which leaves the mutex locked. -/
def memManagerAllocate (manager : SMemoryManager) (location : Option Text) : Option (SMemoryManager × Option Nat × List Message) := do
  let manager := lock manager
  let index := manager.firstFree
  if index = -1 then
    assert (index < manager.capacity)
    let dump ← (List.range manager.capacity.toNat).mapM (dumpBlock manager)
    return (manager, none, [.full manager.name dump])
  else
    let header ← BLOCK_HEADER manager index
    let next ← header.nextFree
    assert (index < manager.capacity)
    let manager ← unlock { manager with firstFree := next }
    assert (header.manager = some manager.address)
    assert (header.isFree = true)
    return (setHeader manager index { header with isFree := false, data := .used index, allocatedFrom := location },
      some index.toNat, [])

/-- The look at the manager of the block behind a freed one, which repairs it. -/
def checkNext (manager : SMemoryManager) (index : Int) : Option (SMemoryManager × List Message) :=
  if index < manager.capacity - 1 then do
    let header ← BLOCK_HEADER manager (index + 1)
    if header.manager = some manager.address then return (manager, [])
    else return (setHeader manager (index + 1) { header with manager := some manager.address }, [.overwritten index])
  else some (manager, [])

/-- A header that names another manager is none of this one's. -/
def memManagerFree (manager : SMemoryManager) (block : Nat) : Option (SMemoryManager × List Message) := do
  let header ← BLOCK_HEADER manager block
  if header.isFree then
    assert (header.manager = some manager.address)
    return (manager, [.freedTwice manager.name block header.allocatedFrom])
  else if header.manager = none then return (manager, [.noManager block])
  else
    assert (header.manager = some manager.address)
    let index ← header.index
    assert (index < manager.capacity)
    let manager := lock manager
    let freed := setHeader manager block { header with isFree := true, data := .nextFree manager.firstFree }
    let manager ← unlock { freed with firstFree := index }
    checkNext manager index

inductive MemOp
  | allocate (location : Option Text)
  | free (block : Nat)

/-- The manager and, by the calls alone, the blocks that were returned and not freed since. -/
def step (s : SMemoryManager × Finset Nat) : MemOp → Option (SMemoryManager × Finset Nat)
  | .allocate location => (memManagerAllocate s.1 location).map fun result =>
    (result.1, match result.2.1 with
      | none => s.2
      | some block => insert block s.2)
  | .free block => (memManagerFree s.1 block).map fun result => (result.1, s.2.erase block)

/-- A free is called with a block of the manager, as all those are that an allocate returns. -/
def Within (capacity : Int) : MemOp → Prop
  | .allocate _ => True
  | .free block => (block : Int) < capacity

/-- The free list visits just the blocks that are not held, and no call fails: an allocate
    gives another block unless all are held, and a free of a block that is not held
    changes nothing. -/
structure Disciplined (manager : SMemoryManager) (held : Finset Nat) : Prop where
  flags : ∀ (i : Nat) (header : BlockHeader), manager.data[i]? = some header → (header.isFree = true ↔ i ∉ held)
  chain : ∃ visited, Chain BlockHeader.nextFree manager.data manager.firstFree visited ∧ visited.Nodup ∧
    (∀ i, i ∈ visited ↔ (i : Int) < manager.capacity ∧ i ∉ held) ∧ (held.card : Int) + visited.length = manager.capacity
  allocates : ∀ location, ∃ after result messages, memManagerAllocate manager location = some (after, result, messages) ∧
    (result = none ↔ (held.card : Int) = manager.capacity) ∧
    ∀ block, result = some block → (block : Int) < manager.capacity ∧ block ∉ held
  frees : ∀ block : Nat, (block : Int) < manager.capacity → ∃ after messages,
    memManagerFree manager block = some (after, messages) ∧ (block ∉ held → after = manager)

/-- What the flag and the union of a header say. -/
def BlockHeader.Shows (header : BlockHeader) (block : Nat) (isHeld : Prop) : Prop :=
  isHeld ∧ header.isFree = false ∧ header.data = .used block ∨
    ¬ isHeld ∧ header.isFree = true ∧ ∃ next, header.data = .nextFree next

structure Inv (manager : SMemoryManager) (held : Finset Nat) : Prop where
  sized : manager.capacity = manager.data.length
  owned : ∀ header ∈ manager.data, header.manager = some manager.address
  free : ∃ visited, Threaded BlockHeader.nextFree manager.data manager.firstFree visited
  shown : ∀ (i : Nat) (header : BlockHeader), manager.data[i]? = some header → header.Shows i (i ∈ held)
  within : ∀ i ∈ held, i < manager.data.length

section
variable {manager : SMemoryManager} {held : Finset Nat} {block : Nat}

theorem BLOCK_HEADER_ofNat (manager : SMemoryManager) (i : Nat) : BLOCK_HEADER manager i = manager.data[i]? := by
  rw [BLOCK_HEADER, if_pos (Int.natCast_nonneg i), Int.toNat_natCast]

/-- The list visits the blocks that are not held. -/
private theorem visited_iff (inv : Inv manager held) {visited : List Nat}
    (free : Threaded BlockHeader.nextFree manager.data manager.firstFree visited) (i : Nat) :
    i ∈ visited ↔ i < manager.data.length ∧ i ∉ held := by
  rw [free.all, linkAt]
  cases found : manager.data[i]? with
  | none =>
    have outside := List.getElem?_eq_none_iff.mp found
    exact iff_of_false Bool.false_ne_true fun inside => absurd inside.1 (Nat.not_lt.mpr outside)
  | some header =>
    have inside := (List.getElem?_eq_some_iff.mp found).1
    rw [Option.bind_some]
    rcases inv.shown i header found with ⟨isHeld, _, data⟩ | ⟨unheld, _, next, data⟩
    · exact iff_of_false (by simp [BlockHeader.nextFree, data]) fun inside => inside.2 isHeld
    · exact iff_of_true (by simp [BlockHeader.nextFree, data]) ⟨inside, unheld⟩

/-- The held blocks and the visited ones are all blocks. -/
private theorem count_blocks (inv : Inv manager held) {visited : List Nat}
    (free : Threaded BlockHeader.nextFree manager.data manager.firstFree visited) :
    held.card + visited.length = manager.data.length := by
  have apart : Disjoint held visited.toFinset := by
    rw [Finset.disjoint_left]
    intro i isHeld member
    exact ((visited_iff inv free i).mp (List.mem_toFinset.mp member)).2 isHeld
  have all : held ∪ visited.toFinset = Finset.range manager.data.length := by
    ext i
    rw [Finset.mem_union, List.mem_toFinset, visited_iff inv free, Finset.mem_range]
    constructor
    · rintro (isHeld | other)
      · exact inv.within i isHeld
      · exact other.1
    · intro inside
      by_cases isHeld : i ∈ held
      · exact .inl isHeld
      · exact .inr ⟨inside, isHeld⟩
  have total := congrArg Finset.card all
  rwa [Finset.card_union_of_disjoint apart, List.toFinset_card_of_nodup free.distinct, Finset.card_range] at total

/-- A block whose header is written, and the blocks that are held then. -/
private theorem write_inv (inv : Inv manager held) {old header : BlockHeader} (held' : Finset Nat) {first : Int}
    {visited : List Nat} (mutex : Nat) (found : manager.data[block]? = some old) (owner : header.manager = some manager.address)
    (shows : header.Shows block (block ∈ held')) (others : ∀ i, i ≠ block → (i ∈ held' ↔ i ∈ held))
    (free : Threaded BlockHeader.nextFree (manager.data.set block header) first visited) :
    Inv { setHeader manager block header with firstFree := first, mutex := mutex } held' := by
  obtain ⟨inside, _⟩ := List.getElem?_eq_some_iff.mp found
  refine ⟨?_, fun other member => ?_, ⟨visited, free⟩, fun i other at_ => ?_, fun i isHeld => ?_⟩
  · change manager.capacity = (manager.data.set block header).length
    rw [List.length_set]
    exact inv.sized
  · rcases List.mem_or_eq_of_mem_set member with before | rfl
    · exact inv.owned other before
    · exact owner
  · change (manager.data.set block header)[i]? = some other at at_
    rw [List.getElem?_set] at at_
    by_cases here : block = i
    · rw [if_pos here, if_pos inside] at at_
      cases at_
      exact here ▸ shows
    · rw [if_neg here] at at_
      rw [others i (Ne.symm here)]
      exact inv.shown i other at_
  · change i < (manager.data.set block header).length
    rw [List.length_set]
    by_cases here : i = block
    · exact here ▸ inside
    · exact inv.within i ((others i here).mp isHeld)

/-- The headers of new blocks, and their links. -/
private theorem newHeaders (address : Nat) {n : Nat} (positive : 0 < n) :
    (∀ i : Nat, ((List.range n).map (newHeader address n))[i]? = if i < n then some (newHeader address n i) else none) ∧
      Threaded BlockHeader.nextFree ((List.range n).map (newHeader address n)) 0 (List.range' 0 n) := by
  have length : ((List.range n).map (newHeader address n)).length = n := by rw [List.length_map, List.length_range]
  have header : ∀ i : Nat, ((List.range n).map (newHeader address n))[i]? =
      if i < n then some (newHeader address n i) else none := by
    intro i
    rw [List.getElem?_map]
    by_cases inside : i < n
    · rw [List.getElem?_range inside, if_pos inside, Option.map_some]
    · rw [List.getElem?_eq_none (by simpa using inside), if_neg inside, Option.map_none]
  have linked : Linked BlockHeader.nextFree 0 (-1) ((List.range n).map (newHeader address n)) := by
    intro k inside
    rw [length] at inside ⊢
    rw [linkAt, header, if_pos inside, Option.bind_some, Nat.zero_add]
    rfl
  have threaded := threaded_create (List.ne_nil_of_length_pos (by rw [length]; exact positive)) linked
  rw [length] at threaded
  exact ⟨header, threaded⟩

/-- The blocks, with their headers, have room in a `size_t`. -/
def BlocksFit (elementSize : UInt64) (capacity : Int) : Prop :=
  (elementSize.toNat + sizeofBlockHeader.toNat) * capacity.toNat ≤ sizeMax

instance (elementSize : UInt64) (capacity : Int) : Decidable (BlocksFit elementSize capacity) :=
  inferInstanceAs (Decidable (_ ≤ _))

section
variable {elementSize : UInt64} {capacity : Int}

theorem blocksFit_sizes (positive : 0 < capacity) (fits : BlocksFit elementSize capacity) :
    (elementSize + sizeofBlockHeader).toNat = elementSize.toNat + sizeofBlockHeader.toNat ∧
      (dataSize (elementSize + sizeofBlockHeader) capacity).toNat = (elementSize + sizeofBlockHeader).toNat * capacity.toNat := by
  obtain ⟨n, rfl⟩ := Int.eq_ofNat_of_zero_le (Int.le_of_lt positive)
  have some : 0 < n := by omega
  unfold BlocksFit sizeMax at fits
  rw [Int.toNat_natCast] at fits
  have one := Nat.le_mul_of_pos_right (elementSize.toNat + sizeofBlockHeader.toNat) some
  have each : (elementSize + sizeofBlockHeader).toNat = elementSize.toNat + sizeofBlockHeader.toNat := by
    rw [UInt64.toNat_add, Nat.mod_eq_of_lt (by omega)]
  have many := Nat.le_mul_of_pos_left n (show 0 < elementSize.toNat + sizeofBlockHeader.toNat from Nat.succ_pos _)
  refine ⟨each, ?_⟩
  rw [dataSize, UInt64.toNat_mul, UInt64.toNat_ofNat', Int.toNat_natCast, Nat.mod_eq_of_lt (show n < 2 ^ 64 by omega), each,
    Nat.mod_eq_of_lt (by omega)]

/-- The last header is in the data just when no size wraps around. -/
theorem headers_inside_iff (positive : 0 < capacity) :
    (∀ i < capacity.toNat, headerPlace (elementSize + sizeofBlockHeader) i + sizeofBlockHeader.toNat ≤
      (dataSize (elementSize + sizeofBlockHeader) capacity).toNat) ↔ BlocksFit elementSize capacity := by
  constructor
  · intro inside
    obtain ⟨n, is⟩ : ∃ n, capacity.toNat = n + 1 := ⟨capacity.toNat - 1, by omega⟩
    have last := inside n (by omega)
    have header : sizeofBlockHeader.toNat = 24 := rfl
    have below := elementSize.toNat_lt
    have size : (elementSize + sizeofBlockHeader).toNat = (elementSize.toNat + 24) % 2 ^ 64 := UInt64.toNat_add _ _
    have whole : (dataSize (elementSize + sizeofBlockHeader) capacity).toNat =
        (elementSize + sizeofBlockHeader).toNat * (n + 1) % 2 ^ 64 := by
      rw [dataSize, UInt64.toNat_mul, UInt64.toNat_ofNat', is, Nat.mul_mod_mod]
    unfold BlocksFit sizeMax
    rw [headerPlace, whole, header] at last
    rw [is, header]
    generalize (elementSize + sizeofBlockHeader).toNat = blockSize at size last
    have product : blockSize * (n + 1) = n * blockSize + blockSize := by rw [Nat.mul_succ, Nat.mul_comm]
    -- the last header begins less than a block in front of the end of the product, so nothing is cut off
    have uncut : blockSize * (n + 1) < 2 ^ 64 := by
      by_contra cut
      have less : blockSize * (n + 1) % 2 ^ 64 ≤ blockSize * (n + 1) - 2 ^ 64 := by
        rw [Nat.mod_eq_sub_mod (by omega)]
        exact Nat.mod_le _ _
      have small : blockSize < 2 ^ 64 := by omega
      omega
    rw [Nat.mod_eq_of_lt uncut] at last
    have same : blockSize = elementSize.toNat + 24 := by omega
    rw [← same]
    omega
  · intro fits i inside
    obtain ⟨each, whole⟩ := blocksFit_sizes positive fits
    have room := Nat.mul_le_mul_right (elementSize + sizeofBlockHeader).toNat (Nat.succ_le_of_lt inside)
    rw [whole, headerPlace, Nat.mul_comm _ capacity.toNat]
    rw [Nat.succ_mul] at room
    omega

end

/-- What a manager is that is made. -/
theorem created_some {elementSize : UInt64} {name : Option Text} {capacity : Int} {result : Option Nat} {mutexMade dataMade : Bool}
    (created : memManagerCreate elementSize name capacity result mutexMade dataMade = some (some manager)) :
    0 < capacity ∧ BlocksFit elementSize capacity ∧ ∃ address, manager =
      ⟨address, name, capacity, elementSize, elementSize + sizeofBlockHeader, 0, 0,
        (List.range capacity.toNat).map (newHeader address capacity.toNat)⟩ := by
  obtain ⟨_, positive, sizing⟩ := Option.bind_eq_some_iff.mp created
  obtain ⟨_, _, making⟩ := Option.bind_eq_some_iff.mp sizing
  have more : 0 < capacity := by simpa using positive
  cases result with
  | none => cases making
  | some address =>
    dsimp only at making
    split at making
    · obtain ⟨_, inside, done⟩ := Option.bind_eq_some_iff.mp making
      cases done
      exact ⟨more, (headers_inside_iff more).mp (by simpa using inside), address, rfl⟩
    · cases making

/-- The blocks of a manager, each with its header, lie one behind the other in the data. -/
theorem blocks_apart {elementSize : UInt64} {name : Option Text} {capacity : Int} {result : Option Nat} {mutexMade dataMade : Bool}
    (created : memManagerCreate elementSize name capacity result mutexMade dataMade = some (some manager)) {i j : Nat} (before : i < j)
    (inside : (j : Int) < manager.capacity) :
    headerPlace manager.blockSize i + sizeofBlockHeader.toNat + manager.elementSize.toNat ≤ headerPlace manager.blockSize j ∧
      headerPlace manager.blockSize j + sizeofBlockHeader.toNat + manager.elementSize.toNat ≤
        (dataSize manager.blockSize manager.capacity).toNat := by
  obtain ⟨positive, fits, address, rfl⟩ := created_some created
  obtain ⟨each, whole⟩ := blocksFit_sizes positive fits
  simp only at inside ⊢
  have first := Nat.mul_le_mul_right (elementSize + sizeofBlockHeader).toNat (Nat.succ_le_of_lt before)
  have last := Nat.mul_le_mul_right (elementSize + sizeofBlockHeader).toNat (show j + 1 ≤ capacity.toNat by omega)
  rw [Nat.succ_mul] at first last
  rw [whole, headerPlace, headerPlace, Nat.mul_comm _ capacity.toNat]
  omega

theorem create_inv {elementSize : UInt64} {name : Option Text} {capacity : Int} {result : Option Nat} {mutexMade dataMade : Bool}
    (created : memManagerCreate elementSize name capacity result mutexMade dataMade = some (some manager)) :
    manager.capacity = capacity ∧ Inv manager ∅ := by
  obtain ⟨more, _, address, rfl⟩ := created_some created
  obtain ⟨n, rfl⟩ := Int.eq_ofNat_of_zero_le (Int.le_of_lt more)
  obtain ⟨header, threaded⟩ := newHeaders address (show 0 < n by omega)
  refine ⟨rfl, ?_, ?_, ⟨_, threaded⟩, fun i h found => ?_, nofun⟩
  · simp
  · intro h member
    obtain ⟨i, _, rfl⟩ := List.mem_map.mp member
    rfl
  · have found : ((List.range n).map (newHeader address n))[i]? = some h := found
    rw [header] at found
    split at found
    · cases found
      exact .inr ⟨by simp, rfl, _, rfl⟩
    · cases found

private theorem mapM_total {β γ : Type} {f : β → Option γ} {list : List β} (each : ∀ x ∈ list, ∃ y, f x = some y) :
    ∃ results, list.mapM f = some results := by
  induction list with
  | nil => exact ⟨[], rfl⟩
  | cons x list ih =>
    obtain ⟨y, first⟩ := each x List.mem_cons_self
    obtain ⟨results, rest⟩ := ih fun z member => each z (List.mem_cons_of_mem x member)
    exact ⟨y :: results, by rw [List.mapM_cons, first, rest]; rfl⟩

/-- All blocks of a full manager pass its assertions. -/
private theorem dump_full (inv : Inv manager held) (full : ∀ i < manager.data.length, i ∈ held) :
    ∃ dump, (List.range manager.capacity.toNat).mapM (dumpBlock manager) = some dump := by
  refine mapM_total fun i member => ?_
  have sized := inv.sized
  have inside : i < manager.data.length := by
    have := List.mem_range.mp member
    omega
  have found := List.getElem?_eq_getElem inside
  have owner := inv.owned _ (List.getElem_mem inside)
  rcases inv.shown i _ found with ⟨_, isFree, data⟩ | ⟨unheld, _⟩
  · refine ⟨(i, manager.data[i].allocatedFrom), ?_⟩
    simp [dumpBlock, BLOCK_HEADER_ofNat, found, owner, isFree, BlockHeader.index, data]
  · exact absurd (full i inside) unheld

theorem allocate_inv (inv : Inv manager held) (location : Option Text) :
    (∃ after messages, memManagerAllocate manager location = some (after, none, messages) ∧
      held.card = manager.data.length ∧ after.capacity = manager.capacity ∧ Inv after held) ∨
    ∃ after block, memManagerAllocate manager location = some (after, some block, []) ∧
      block < manager.data.length ∧ block ∉ held ∧ after.capacity = manager.capacity ∧ Inv after (insert block held) := by
  obtain ⟨visited, free⟩ := inv.free
  have sized := inv.sized
  have count := count_blocks inv free
  rcases threaded_cases free with ⟨ended, rfl⟩ | ⟨block, rest, first, rfl, inside⟩
  · have full : ∀ i < manager.data.length, i ∈ held := by
      intro i inside
      by_contra unheld
      cases (visited_iff inv free i).mpr ⟨inside, unheld⟩
    have locked : Inv (lock manager) held := ⟨inv.sized, inv.owned, ⟨_, free⟩, inv.shown, inv.within⟩
    obtain ⟨dump, dumped⟩ := dump_full locked full
    refine .inl ⟨lock manager, [.full manager.name dump], ?_, by simpa using count, rfl, locked⟩
    have smaller : (-1 : Int) < manager.capacity := by omega
    have capacity : (lock manager).capacity = manager.capacity := rfl
    rw [capacity] at dumped
    simp [memManagerAllocate, show (lock manager).firstFree = -1 from ended, capacity, smaller, dumped]
    rfl
  · have unheld := ((visited_iff inv free block).mp List.mem_cons_self).2
    have owner := inv.owned _ (List.getElem_mem inside)
    have found := List.getElem?_eq_getElem inside
    rcases inv.shown block _ found with ⟨isHeld, _⟩ | ⟨_, isFree, next, data⟩
    · exact absurd isHeld unheld
    · obtain ⟨header, is⟩ : ∃ header, header =
          { manager.data[block] with isFree := false, data := .used block, allocatedFrom := location } := ⟨_, rfl⟩
      have used : header.nextFree = none := by rw [is]; rfl
      obtain ⟨link, linked, taken⟩ := threaded_take free used
      have written := write_inv inv (insert block held) manager.mutex found (by rw [is]; exact owner)
        (.inl ⟨Finset.mem_insert_self _ _, by rw [is], by rw [is]⟩)
        (fun i other => by rw [Finset.mem_insert, or_iff_right other]) taken
      refine .inr ⟨{ setHeader manager block header with firstFree := link, mutex := manager.mutex }, block, ?_, inside, unheld,
        rfl, written⟩
      rw [linkAt, found, Option.bind_some] at linked
      have smaller : (block : Int) < manager.capacity := by omega
      simp [memManagerAllocate, lock, unlock, first, BLOCK_HEADER, found, linked, owner, isFree, is, smaller, setHeader]

/-- No block behind another one has lost its manager. -/
private theorem checkNext_owned (inv : Inv manager held) (block : Nat) : checkNext manager block = some (manager, []) := by
  have sized := inv.sized
  unfold checkNext
  split
  · have next : block + 1 < manager.data.length := by omega
    have found : BLOCK_HEADER manager (block + 1) = some manager.data[block + 1] := by
      rw [← List.getElem?_eq_getElem next, ← BLOCK_HEADER_ofNat]
      rfl
    have owner := inv.owned _ (List.getElem_mem next)
    simp [found, owner]
  · rfl

theorem free_held (inv : Inv manager held) (isHeld : block ∈ held) :
    ∃ after, memManagerFree manager block = some (after, []) ∧ after.capacity = manager.capacity ∧ Inv after (held.erase block) := by
  have inside := inv.within block isHeld
  have sized := inv.sized
  have owner := inv.owned _ (List.getElem_mem inside)
  have found := List.getElem?_eq_getElem inside
  obtain ⟨visited, free⟩ := inv.free
  rcases inv.shown block _ found with ⟨_, isFree, data⟩ | ⟨unheld, _⟩
  · obtain ⟨header, is⟩ : ∃ header, header = { manager.data[block] with isFree := true, data := .nextFree manager.firstFree } :=
      ⟨_, rfl⟩
    have link : header.nextFree = some manager.firstFree := by rw [is]; rfl
    have unlinked : linkAt BlockHeader.nextFree manager.data block = none := by
      rw [linkAt, found, Option.bind_some, BlockHeader.nextFree, data]
    have given := threaded_give free inside unlinked link
    have written := write_inv inv (held.erase block) manager.mutex found (by rw [is]; exact owner)
      (.inr ⟨Finset.notMem_erase _ _, by rw [is], manager.firstFree, by rw [is]⟩)
      (fun i other => by rw [Finset.mem_erase, and_iff_right other]) given
    refine ⟨{ setHeader manager block header with firstFree := block, mutex := manager.mutex }, ?_, rfl, written⟩
    have checked := checkNext_owned written block
    have smaller : (block : Int) < manager.capacity := by omega
    rw [is] at checked ⊢
    simp only [setHeader, Int.toNat_natCast, owner] at checked
    simp [memManagerFree, BLOCK_HEADER_ofNat, found, isFree, owner, BlockHeader.index, data, smaller, lock, unlock, setHeader, checked]
  · exact absurd isHeld unheld

/-- A block that is not held is found free, and nothing changes. -/
theorem free_unheld (inv : Inv manager held) (inside : block < manager.data.length) (unheld : block ∉ held) :
    ∃ messages, memManagerFree manager block = some (manager, messages) := by
  have found := List.getElem?_eq_getElem inside
  have owner := inv.owned _ (List.getElem_mem inside)
  rcases inv.shown block _ found with ⟨isHeld, _⟩ | ⟨_, isFree, _⟩
  · exact absurd isHeld unheld
  · refine ⟨[.freedTwice manager.name block manager.data[block].allocatedFrom], ?_⟩
    simp [memManagerFree, BLOCK_HEADER_ofNat, found, isFree, owner]

/-- What the invariant says to a user of the pool. -/
theorem inv_disciplined (inv : Inv manager held) : Disciplined manager held := by
  obtain ⟨visited, free⟩ := inv.free
  have sized := inv.sized
  have count := count_blocks inv free
  refine ⟨fun i header found => ?_, ⟨visited, free.chain, free.distinct, fun i => ?_, by omega⟩, fun location => ?_,
    fun block inside => ?_⟩
  · rcases inv.shown i header found with ⟨isHeld, isFree, _⟩ | ⟨unheld, isFree, _⟩
    · rw [isFree]
      exact iff_of_false nofun (not_not.mpr isHeld)
    · exact iff_of_true isFree unheld
  · rw [visited_iff inv free, sized, Int.ofNat_lt]
  · rcases allocate_inv inv location with ⟨after, messages, ran, full, _⟩ | ⟨after, block, ran, inside, unheld, _⟩
    · exact ⟨after, none, messages, ran, iff_of_true rfl (by omega), nofun⟩
    · refine ⟨after, some block, [], ran, iff_of_false nofun fun full => ?_, ?_⟩
      · have member := (visited_iff inv free block).mpr ⟨inside, unheld⟩
        have more := List.length_pos_of_mem member
        omega
      · rintro other same
        cases same
        exact ⟨by omega, unheld⟩
  · by_cases isHeld : block ∈ held
    · obtain ⟨after, ran, _⟩ := free_held inv isHeld
      exact ⟨after, [], ran, fun unheld => absurd isHeld unheld⟩
    · obtain ⟨messages, ran⟩ := free_unheld inv (by omega) isHeld
      exact ⟨manager, messages, ran, fun _ => rfl⟩

theorem step_inv {s : SMemoryManager × Finset Nat} {op : MemOp} (inv : Inv s.1 s.2) (within : Within s.1.capacity op) :
    ∃ after, step s op = some after ∧ after.1.capacity = s.1.capacity ∧ Inv after.1 after.2 := by
  cases op with
  | allocate location =>
    rcases allocate_inv inv location with ⟨after, messages, ran, _, same, kept⟩ | ⟨after, block, ran, _, _, same, kept⟩
    · exact ⟨(after, s.2), by rw [step, ran]; rfl, same, kept⟩
    · exact ⟨(after, insert block s.2), by rw [step, ran]; rfl, same, kept⟩
  | free block =>
    by_cases isHeld : block ∈ s.2
    · obtain ⟨after, ran, same, kept⟩ := free_held inv isHeld
      exact ⟨(after, s.2.erase block), by rw [step, ran]; rfl, same, kept⟩
    · have sized := inv.sized
      have inside : (block : Int) < s.1.capacity := within
      obtain ⟨messages, ran⟩ := free_unheld inv (by omega) isHeld
      refine ⟨(s.1, s.2.erase block), by rw [step, ran]; rfl, rfl, ?_⟩
      rwa [Finset.erase_eq_of_notMem isHeld]

end

/-- After any allocates, and frees of blocks that were returned at any time, the free list visits just the blocks that are
    not held, and no assertion fails; that is so of a manager whose blocks have room in a `size_t`. -/
theorem pool_disciplined_iff {elementSize : UInt64} {capacity : Int} (bytes : 0 < elementSize) (positive : 0 < capacity)
    (name : Option Text) (address : Nat) (ops : List MemOp) (within : ∀ op ∈ ops, Within capacity op) :
    (∃ created, memManagerCreate elementSize name capacity (some address) true true = some (some created) ∧
      ∃ manager held, run step (created, ∅) ops = some (manager, held) ∧ Disciplined manager held) ↔
      BlocksFit elementSize capacity := by
  constructor
  · rintro ⟨created, made, _⟩
    exact (created_some made).2.1
  · intro fits
    obtain ⟨created, made⟩ : ∃ created, memManagerCreate elementSize name capacity (some address) true true = some (some created) := by
      have inside := (headers_inside_iff positive).mpr fits
      refine ⟨⟨address, name, capacity, elementSize, elementSize + sizeofBlockHeader, 0, 0,
        (List.range capacity.toNat).map (newHeader address capacity.toNat)⟩, ?_⟩
      simp only [memManagerCreate, assert_true positive, assert_true bytes, Bool.and_self, if_true, assert_true inside]
      rfl
    obtain ⟨same, inv⟩ := create_inv made
    have each : ∀ (s : SMemoryManager × Finset Nat) (op : MemOp), s.1.capacity = capacity ∧ Inv s.1 s.2 → Within capacity op →
        ∃ after, step s op = some after ∧ after.1.capacity = capacity ∧ Inv after.1 after.2 := by
      rintro s op ⟨equal, kept⟩ allowed
      obtain ⟨after, stepped, still, next⟩ := step_inv kept (equal ▸ allowed)
      exact ⟨after, stepped, still.trans equal, next⟩
    obtain ⟨⟨manager, held⟩, ran, _, kept⟩ := run_total each (s := (created, ∅)) ⟨same, inv⟩ within
    exact ⟨created, made, manager, held, ran, inv_disciplined kept⟩

/-- A pool of two blocks that gets full, with a block that is freed twice. -/
theorem pool_disciplined_iff_full :
    (∃ created, memManagerCreate 8 (some (lit "pool")) 2 (some 0) true true = some (some created) ∧
      ∃ manager held, run step (created, ∅) [.allocate none, .allocate none, .allocate none, .free 0, .free 0] = some (manager, held) ∧
        Disciplined manager held) ↔ BlocksFit 8 2 := by
  refine pool_disciplined_iff (by decide) (by decide) _ _ _ fun op member => ?_
  simp only [List.mem_cons, List.not_mem_nil, or_false] at member
  have inside : Within 2 (.free 0) := show ((0 : Nat) : Int) < 2 by decide
  rcases member with rfl | rfl | rfl | rfl | rfl
  · trivial
  · trivial
  · trivial
  · exact inside
  · exact inside

/-- With elements of `SIZE_MAX - 23` bytes the block size is 0, so that both headers are at one place, and `malloc` is asked for
    no bytes. -/
theorem headers_coincide :
    headerPlace (18446744073709551592 + sizeofBlockHeader) 0 = headerPlace (18446744073709551592 + sizeofBlockHeader) 1 ∧
      dataSize (18446744073709551592 + sizeofBlockHeader) 2 = 0 ∧
      memManagerCreate 18446744073709551592 (some (lit "x")) 2 (some 0) true true = none := by
  decide

end VoxiUtil.Memory
