import VoxiUtil.Memory

/-!
The pool of `memory.c` where the holders of blocks write beyond the ends of their blocks, into
the manager field of the header behind. The links and the flags of the pool stay those of
the calls; `memManager_free` and `memManager_validate` report an overwritten header and repair
it, and a call that comes upon one that is its own stops the program.
-/
namespace VoxiUtil.MemoryOverruns
open VoxiUtil.CString VoxiUtil.FreeList VoxiUtil.Runs
open VoxiUtil.Memory hiding step Inv create_inv

/-- A block that is free fails the assertion; a header that names another manager is none of this one's. -/
def memManagerValidate (manager : SMemoryManager) (block : Nat) : Option (SMemoryManager × List Message) := do
  let header ← BLOCK_HEADER manager block
  assert (header.isFree = false)
  if header.manager = none then return (manager, [.noManager block])
  else
    assert (header.manager = some manager.address)
    let index ← header.index
    assert (index < manager.capacity)
    checkNext manager index

/-- The write of a holder behind its block: the first word of the next header gets a value. -/
def overrun (manager : SMemoryManager) (block : Nat) (value : Option Nat) : Option SMemoryManager := do
  let header ← manager.data[block + 1]?
  return setHeader manager (block + 1 : Nat) { header with manager := value }

inductive Act where
  | allocate (location : Option Text)
  | free (block : Nat)
  | validate (block : Nat)
  | overrun (block : Nat) (value : Option Nat)

/-- A header without a manager. -/
def Nulled (manager : SMemoryManager) (block : Nat) : Prop := manager.data[block]?.map (·.manager) = some none

instance (manager : SMemoryManager) (block : Nat) : Decidable (Nulled manager block) := inferInstanceAs (Decidable (_ = _))

/-- The pool with what is recorded of the calls: the blocks that were returned and not freed since, the overwritten headers
    that were not repaired, how often an intact header was overwritten, and all messages. -/
structure Pool where
  manager : SMemoryManager
  held : Finset Nat
  damaged : Finset Nat
  damages : Nat
  messages : List Message

/-- A call that looks at the header behind a block, after its own block. -/
def checked (s : Pool) (block : Nat) (held : Finset Nat) (result : SMemoryManager × List Message) : Pool :=
  if Nulled s.manager block ∨ block ∉ s.held then { s with manager := result.1, messages := s.messages ++ result.2 }
  else ⟨result.1, held, s.damaged.erase (block + 1), s.damages, s.messages ++ result.2⟩

def step (s : Pool) : Act → Option Pool
  | .allocate location => (memManagerAllocate s.manager location).map fun result =>
    { s with
      manager := result.1
      held := match result.2.1 with
        | none => s.held
        | some block => insert block s.held
      messages := s.messages ++ result.2.2 }
  | .free block => (memManagerFree s.manager block).map (checked s block (s.held.erase block))
  | .validate block => (memManagerValidate s.manager block).map (checked s block s.held)
  | .overrun block value => (overrun s.manager block value).map fun manager =>
    { s with
      manager := manager
      damaged := insert (block + 1) s.damaged
      damages := if block + 1 ∈ s.damaged then s.damages else s.damages + 1 }

/-- The calls are for blocks of the pool, and holders write something else than the manager behind their own blocks. -/
def Allowed (s : Pool) : Act → Prop
  | .allocate _ => True
  | .free block | .validate block => (block : Int) < s.manager.capacity
  | .overrun block value => block ∈ s.held ∧ (block + 1 : Int) < s.manager.capacity ∧ value ≠ some s.manager.address

/-- The call does not come upon an overwritten header of its own, and does not validate a free block. -/
def Unharmed (s : Pool) : Act → Prop
  | .allocate _ => if s.manager.firstFree = -1 then s.damaged = ∅ else ∀ i ∈ s.damaged, s.manager.firstFree ≠ i
  | .free block => block ∉ s.damaged ∨ block ∈ s.held ∧ Nulled s.manager block
  | .validate block => block ∈ s.held ∧ (block ∉ s.damaged ∨ Nulled s.manager block)
  | .overrun _ _ => True

def Message.isOverwritten : Message → Bool
  | .overwritten _ => true
  | _ => false

/-! ### Headers with their manager -/

def restore (address : Nat) (header : BlockHeader) : BlockHeader := { header with manager := some address }

/-- The pool as it would be without the writes. -/
def restored (manager : SMemoryManager) : SMemoryManager := { manager with data := manager.data.map (restore manager.address) }

/-- The headers whose manager is not that of the pool. -/
structure Marks (manager : SMemoryManager) (damaged : Finset Nat) : Prop where
  iff : ∀ (i : Nat) (header : BlockHeader), manager.data[i]? = some header → (header.manager ≠ some manager.address ↔ i ∈ damaged)
  inside : ∀ i ∈ damaged, i < manager.data.length

/-- After all that was written, the pool is that of the calls alone, but for the managers of the damaged headers. -/
structure Contained (s : Pool) : Prop where
  discipline : Disciplined (restored s.manager) s.held
  marks : Marks s.manager s.damaged
  /-- Every header that was overwritten is so still, or was reported, once. -/
  reports : s.messages.countP Message.isOverwritten + s.damaged.card = s.damages
  /-- The program is stopped by a call that comes upon a damaged header of its own, and by no other. -/
  goes : ∀ act, Allowed s act → ((step s act).isSome = true ↔ Unharmed s act)

section
variable {m after : SMemoryManager} {held damaged : Finset Nat} {block : Nat} {header : BlockHeader}

theorem restored_get (i : Nat) : (restored m).data[i]? = m.data[i]?.map (restore m.address) := List.getElem?_map

theorem restored_set (i : Nat) (header : BlockHeader) :
    restored (setHeader m i header) = setHeader (restored m) i (restore m.address header) := by
  simp [restored, setHeader, List.map_set]

theorem restore_intact (intact : header.manager = some m.address) : restore m.address header = header := by
  rw [restore, ← intact]

theorem restored_intact (marks : Marks m ∅) : restored m = m := by
  have same : m.data.map (restore m.address) = m.data := by
    rw [List.map_eq_iff]
    intro i
    cases found : m.data[i]? with
    | none => rfl
    | some header =>
      have intact : header.manager = some m.address := by simpa using marks.iff i header found
      rw [Option.map_some, restore_intact intact]
  rw [restored, same]

/-- The headers after one was written. -/
theorem set_get (found : m.data[block]? = some header) {new other : BlockHeader} {i : Nat}
    (at' : (setHeader m block new).data[i]? = some other) : i = block ∧ other = new ∨ i ≠ block ∧ m.data[i]? = some other := by
  have inside := (List.getElem?_eq_some_iff.mp found).1
  change (m.data.set block new)[i]? = some other at at'
  rw [List.getElem?_set] at at'
  by_cases here : block = i
  · rw [if_pos here, if_pos inside] at at'
    exact .inl ⟨here.symm, (Option.some.inj at').symm⟩
  · rw [if_neg here] at at'
    exact .inr ⟨Ne.symm here, at'⟩

theorem set_length (new : BlockHeader) : (setHeader m block new).data.length = m.data.length := List.length_set

theorem marks_set (marks : Marks m damaged) (found : m.data[block]? = some header) (new : BlockHeader) (same : new.manager = header.manager) :
    Marks (setHeader m block new) damaged := by
  refine ⟨fun i other at' => ?_, fun i member => ?_⟩
  · rcases set_get found at' with ⟨rfl, rfl⟩ | ⟨-, before⟩
    · rw [same]
      exact marks.iff i header found
    · exact marks.iff i other before
  · rw [set_length]
    exact marks.inside i member

theorem marks_repair (marks : Marks m damaged) (found : m.data[block]? = some header) {new : BlockHeader}
    (own : new.manager = some m.address) : Marks (setHeader m block new) (damaged.erase block) := by
  refine ⟨fun i other at' => ?_, fun i member => ?_⟩
  · rcases set_get found at' with ⟨rfl, rfl⟩ | ⟨apart, before⟩
    · exact iff_of_false (not_not.mpr own) (Finset.notMem_erase i damaged)
    · rw [Finset.mem_erase, and_iff_right apart]
      exact marks.iff i other before
  · rw [set_length]
    exact marks.inside i (Finset.mem_of_mem_erase member)

theorem marks_damage (marks : Marks m damaged) (found : m.data[block]? = some header) {new : BlockHeader}
    (foreign : new.manager ≠ some m.address) : Marks (setHeader m block new) (insert block damaged) := by
  refine ⟨fun i other at' => ?_, fun i member => ?_⟩
  · rcases set_get found at' with ⟨rfl, rfl⟩ | ⟨apart, before⟩
    · exact iff_of_true foreign (Finset.mem_insert_self i damaged)
    · rw [Finset.mem_insert, or_iff_right apart]
      exact marks.iff i other before
  · rw [set_length]
    rcases Finset.mem_insert.mp member with rfl | before
    · exact (List.getElem?_eq_some_iff.mp found).1
    · exact marks.inside i before

/-! ### The calls -/

/-- What the pool without the writes says of a header. -/
theorem shows (inv : Memory.Inv (restored m) held) (found : m.data[block]? = some header) :
    header.Shows block (block ∈ held) := by
  have kept := inv.shown block (restore m.address header) (by rw [restored_get, found]; rfl)
  exact kept

theorem sized (inv : Memory.Inv (restored m) held) : m.capacity = m.data.length := by
  have same := inv.sized
  simpa [restored] using same

/-- A header that is written back. -/
theorem set_same (found : m.data[block]? = some header) : setHeader m block header = m := by
  obtain ⟨inside, rfl⟩ := List.getElem?_eq_some_iff.mp found
  simp [setHeader]

/-- A manager that is written makes no difference to the pool without the writes. -/
theorem restored_write (found : m.data[block]? = some header) (value : Option Nat) :
    restored (setHeader m block { header with manager := value }) = restored m := by
  rw [restored_set]
  exact set_same (by rw [restored_get, found]; rfl)

/-- The look behind a block reports a damaged header and repairs it. -/
theorem checkNext_spec (marks : Marks m damaged) (fits : m.capacity = m.data.length) (block : Nat) :
    ∃ after messages, checkNext m block = some (after, messages) ∧ Marks after (damaged.erase (block + 1)) ∧
      restored after = restored m ∧ messages = if block + 1 ∈ damaged then [.overwritten block] else [] := by
  by_cases next : block + 1 < m.data.length
  · have found := List.getElem?_eq_getElem next
    have inside : (block : Int) < m.capacity - 1 := by omega
    have here : BLOCK_HEADER m ((block : Int) + 1) = some m.data[block + 1] := by
      rw [← found, ← BLOCK_HEADER_ofNat]
      rfl
    by_cases own : m.data[block + 1].manager = some m.address
    · have intact : block + 1 ∉ damaged := fun member => (marks.iff _ _ found).mpr member own
      refine ⟨m, [], by simp [checkNext, inside, here, own], ?_, rfl, by rw [if_neg intact]⟩
      rwa [Finset.erase_eq_of_notMem intact]
    · have member := (marks.iff _ _ found).mp own
      refine ⟨setHeader m (block + 1 : Nat) { m.data[block + 1] with manager := some m.address }, [.overwritten block], ?_,
        marks_repair marks found rfl, restored_write found _, by rw [if_pos member]⟩
      simp [checkNext, inside, here, own]
  · have outside : ¬ (block : Int) < m.capacity - 1 := by omega
    have intact : block + 1 ∉ damaged := fun member => next (marks.inside _ member)
    refine ⟨m, [], by simp [checkNext, outside], ?_, rfl, by rw [if_neg intact]⟩
    rwa [Finset.erase_eq_of_notMem intact]

theorem validate_spec (inv : Memory.Inv (restored m) held) (marks : Marks m damaged) (isHeld : block ∈ held) (intact : block ∉ damaged) :
    ∃ after messages, memManagerValidate m block = some (after, messages) ∧ Marks after (damaged.erase (block + 1)) ∧
      restored after = restored m ∧ messages = if block + 1 ∈ damaged then [.overwritten block] else [] := by
  have fits := sized inv
  have inside : block < m.data.length := by simpa [restored] using inv.within block isHeld
  have found := List.getElem?_eq_getElem inside
  have own : m.data[block].manager = some m.address := by
    by_contra foreign
    exact intact ((marks.iff _ _ found).mp foreign)
  have smaller : (block : Int) < m.capacity := by omega
  obtain ⟨after, messages, ran, rest⟩ := checkNext_spec marks fits block
  rcases shows inv found with ⟨_, isFree, data⟩ | ⟨unheld, _⟩
  · refine ⟨after, messages, ?_, rest⟩
    simp [memManagerValidate, BLOCK_HEADER_ofNat, found, isFree, own, BlockHeader.index, data, smaller, ran]
  · exact absurd isHeld unheld

theorem marks_restored (m : SMemoryManager) : Marks (restored m) ∅ := by
  refine ⟨fun i header at' => iff_of_false (not_not.mpr ?_) (Finset.notMem_empty i), fun i member => absurd member (Finset.notMem_empty i)⟩
  rw [restored_get, Option.map_eq_some_iff] at at'
  obtain ⟨old, -, rfl⟩ := at'
  rfl

/-- The pool without the writes has nothing to report. -/
theorem checkNext_restored (fits : m.capacity = m.data.length) (block : Nat) :
    checkNext (restored m) block = some (restored m, []) := by
  obtain ⟨after, messages, ran, marks, same, rfl⟩ := checkNext_spec (marks_restored m) (by simpa [restored] using fits) block
  rw [Finset.erase_eq_of_notMem (Finset.notMem_empty _)] at marks
  rw [restored_intact marks, restored_intact (marks_restored m)] at same
  rw [ran, same, if_neg (Finset.notMem_empty _)]

/-- The pool with a block given back. -/
def givenBack (m : SMemoryManager) (block : Nat) (header : BlockHeader) : SMemoryManager :=
  { setHeader m block { header with isFree := true, data := .nextFree m.firstFree } with firstFree := block }

/-- A free of a block in use comes to the look behind it. -/
theorem free_checks (fits : m.capacity = m.data.length) (found : m.data[block]? = some header) (used : header.isFree = false)
    (data : header.data = .used block) (own : header.manager = some m.address) :
    memManagerFree m block = checkNext (givenBack m block header) block := by
  have inside := (List.getElem?_eq_some_iff.mp found).1
  have smaller : (block : Int) < m.capacity := by omega
  simp [memManagerFree, BLOCK_HEADER_ofNat, found, used, own, BlockHeader.index, data, smaller, lock, unlock, givenBack, setHeader]

/-- A free of a held block with an intact header is that of the pool without the writes, and looks at the header behind. -/
theorem free_spec (inv : Memory.Inv (restored m) held) (marks : Marks m damaged) (isHeld : block ∈ held) (intact : block ∉ damaged) :
    ∃ after messages, memManagerFree m block = some (after, messages) ∧ Marks after (damaged.erase (block + 1)) ∧
      memManagerFree (restored m) block = some (restored after, []) ∧
      messages = if block + 1 ∈ damaged then [.overwritten block] else [] := by
  have fits := sized inv
  have inside : block < m.data.length := by simpa [restored] using inv.within block isHeld
  have found := List.getElem?_eq_getElem inside
  have own : m.data[block].manager = some m.address := by
    by_contra foreign
    exact intact ((marks.iff _ _ found).mp foreign)
  rcases shows inv found with ⟨_, isFree, data⟩ | ⟨unheld, _⟩
  · have given : Marks (givenBack m block m.data[block]) damaged := by
      have set := marks_set marks found { m.data[block] with isFree := true, data := .nextFree m.firstFree } rfl
      exact ⟨set.iff, set.inside⟩
    have fits' : (givenBack m block m.data[block]).capacity = (givenBack m block m.data[block]).data.length := by
      rw [givenBack, set_length]
      exact fits
    obtain ⟨after, messages, ran, kept, same, reported⟩ := checkNext_spec given fits' block
    refine ⟨after, messages, (free_checks fits found isFree data own).trans ran, kept, ?_, reported⟩
    have clean : (restored m).data[block]? = some (restore m.address m.data[block]) := by rw [restored_get, found]; rfl
    have back : givenBack (restored m) block (restore m.address m.data[block]) = restored (givenBack m block m.data[block]) := by
      simp [givenBack, restored, setHeader, restore, List.map_set]
    rw [free_checks (by simpa [restored] using fits) clean isFree data rfl, back, checkNext_restored fits', same]
  · exact absurd isHeld unheld

/-- The pool with its first free block handed out. -/
def handedOut (m : SMemoryManager) (block : Nat) (header : BlockHeader) (location : Option Text) (next : Int) : SMemoryManager :=
  { setHeader m block { header with isFree := false, data := .used block, allocatedFrom := location } with firstFree := next }

/-- An allocate hands the first free block out when its header is intact. -/
theorem allocate_takes (location : Option Text) {next : Int} (fits : m.capacity = m.data.length) (first : m.firstFree = block)
    (found : m.data[block]? = some header) (free : header.isFree = true) (data : header.data = .nextFree next) :
    memManagerAllocate m location =
      if header.manager = some m.address then some (handedOut m block header location next, some block, []) else none := by
  have inside := (List.getElem?_eq_some_iff.mp found).1
  have smaller : (block : Int) < m.capacity := by omega
  split
  · rename_i own
    simp [memManagerAllocate, lock, unlock, first, BLOCK_HEADER, found, BlockHeader.nextFree, data, smaller, own, free, handedOut, setHeader]
  · rename_i foreign
    simp [memManagerAllocate, lock, unlock, first, BLOCK_HEADER, found, BlockHeader.nextFree, data, smaller, foreign, assert]

theorem mapM_none {β γ : Type} {f : β → Option γ} {list : List β} {x : β} (member : x ∈ list) (fails : f x = none) : list.mapM f = none := by
  induction list with
  | nil => cases member
  | cons y rest ih =>
    rw [List.mapM_cons]
    rcases List.mem_cons.mp member with rfl | later
    · rw [fails]
      rfl
    · rw [ih later]
      cases f y <;> rfl

/-- A full pool asserts of all headers that they are intact. -/
theorem allocate_full_damaged (location : Option Text) (fits : m.capacity = m.data.length) (full : m.firstFree = -1)
    (marks : Marks m damaged) {i : Nat} (member : i ∈ damaged) : memManagerAllocate m location = none := by
  have inside := marks.inside i member
  have found := List.getElem?_eq_getElem inside
  have foreign := (marks.iff _ _ found).mpr member
  have fails : dumpBlock (lock m) i = none := by
    simp [dumpBlock, lock, BLOCK_HEADER, found, foreign, assert]
  have dumped := mapM_none (f := dumpBlock (lock m)) (List.mem_range.mpr (show i < m.capacity.toNat by omega)) fails
  have capacity : (lock m).capacity = m.capacity := rfl
  have ended : (lock m).firstFree = -1 := full
  simp only [memManagerAllocate, ended, capacity, dumped, if_true, Option.bind_eq_bind, Option.bind_none]
  cases assert ((-1 : Int) < m.capacity) <;> rfl

/-- An allocate prints that the pool is full, or nothing. -/
theorem allocate_quiet {location : Option Text} {result : Option Nat} {messages : List Message}
    (ran : memManagerAllocate m location = some (after, result, messages)) : messages.countP Message.isOverwritten = 0 := by
  simp only [memManagerAllocate, Option.bind_eq_bind] at ran
  split at ran
  · simp only [Option.bind_eq_some_iff] at ran
    obtain ⟨_, -, dump, -, same⟩ := ran
    cases same
    rfl
  · simp only [Option.bind_eq_some_iff] at ran
    obtain ⟨_, -, _, -, _, -, _, -, _, -, _, -, same⟩ := ran
    cases same
    rfl

theorem allocate_spec (inv : Memory.Inv (restored m) held) (marks : Marks m damaged) (location : Option Text) :
    m.firstFree = -1 ∧ (damaged = ∅ → ∃ after messages, memManagerAllocate m location = some (after, none, messages) ∧
        Memory.Inv (restored after) held ∧ Marks after ∅) ∧ (damaged ≠ ∅ → memManagerAllocate m location = none) ∨
      ∃ block : Nat, m.firstFree = block ∧ (block ∉ damaged → ∃ after, memManagerAllocate m location = some (after, some block, []) ∧
        Memory.Inv (restored after) (insert block held) ∧ Marks after damaged) ∧
        (block ∈ damaged → memManagerAllocate m location = none) := by
  have fits := sized inv
  obtain ⟨visited, threaded⟩ := inv.free
  rcases threaded_cases threaded with ⟨ended, -⟩ | ⟨block, rest, first, rfl, inside⟩
  · refine .inl ⟨ended, ?_, fun some => ?_⟩
    · rintro rfl
      have same := restored_intact marks
      rw [same] at inv
      rcases allocate_inv inv location with ⟨after, messages, ran, -, -, kept⟩ | ⟨after, block, ran, -⟩
      · have own : Marks after ∅ := by
          refine ⟨fun i header at' => ?_, fun i member => absurd member (Finset.notMem_empty i)⟩
          exact iff_of_false (not_not.mpr (kept.owned header (List.mem_of_getElem? at'))) (Finset.notMem_empty i)
        exact ⟨after, messages, ran, by rwa [restored_intact own], own⟩
      · have full : (lock m).firstFree = -1 := ended
        simp only [memManagerAllocate, full, if_true, Option.bind_eq_bind, Option.bind_eq_some_iff] at ran
        obtain ⟨_, -, dump, -, result⟩ := ran
        cases result
    · obtain ⟨i, member⟩ := Finset.nonempty_iff_ne_empty.mpr some
      exact allocate_full_damaged location fits ended marks member
  · replace first : m.firstFree = block := first
    rw [restored, List.length_map] at inside
    have found := List.getElem?_eq_getElem inside
    have clean : (restored m).data[block]? = some (restore m.address m.data[block]) := by rw [restored_get, found]; rfl
    have linked := (threaded.all block).mp List.mem_cons_self
    rw [linkAt, clean, Option.bind_some] at linked
    rcases shows inv found with ⟨_, _, data⟩ | ⟨unheld, isFree, next, data⟩
    · simp [BlockHeader.nextFree, restore, data] at linked
    · have takes := allocate_takes location fits first found isFree data
      refine .inr ⟨block, first, fun intact => ?_, fun member => ?_⟩
      · have own : m.data[block].manager = some m.address := by
          by_contra foreign
          exact intact ((marks.iff _ _ found).mp foreign)
        refine ⟨_, takes.trans (if_pos own), ?_, ?_⟩
        · have takes' := allocate_takes (m := restored m) location (by simpa [restored] using fits) first clean isFree data
          rw [if_pos (show (restore m.address m.data[block]).manager = some (restored m).address from rfl)] at takes'
          have same : handedOut (restored m) block (restore m.address m.data[block]) location next =
              restored (handedOut m block m.data[block] location next) := by
            simp [handedOut, restored, setHeader, restore, List.map_set]
          rw [same] at takes'
          rcases allocate_inv inv location with ⟨after, messages, ran, -⟩ | ⟨after, block', ran, -, -, -, kept⟩
          · rw [takes'] at ran
            cases ran
          · rw [takes'] at ran
            cases ran
            exact kept
        · have set := marks_set marks found { m.data[block] with isFree := false, data := .used block, allocatedFrom := location } rfl
          exact ⟨set.iff, set.inside⟩
      · exact takes.trans (if_neg ((marks.iff _ _ found).mpr member))

/-- A header with a manager that is not that of the pool. -/
theorem free_foreign (found : m.data[block]? = some header) (foreign : header.manager ≠ some m.address) :
    memManagerFree m block = if header.isFree = false ∧ header.manager = none then some (m, [.noManager block]) else none := by
  cases free : header.isFree
  · by_cases null : header.manager = none
    · simp [memManagerFree, BLOCK_HEADER_ofNat, found, free, null]
    · simp [memManagerFree, BLOCK_HEADER_ofNat, found, free, null, foreign, assert]
  · simp [memManagerFree, BLOCK_HEADER_ofNat, found, free, foreign, assert]

theorem validate_foreign (found : m.data[block]? = some header) (foreign : header.manager ≠ some m.address) :
    memManagerValidate m block = if header.isFree = false ∧ header.manager = none then some (m, [.noManager block]) else none := by
  cases free : header.isFree
  · by_cases null : header.manager = none
    · simp [memManagerValidate, BLOCK_HEADER_ofNat, found, free, null]
    · simp [memManagerValidate, BLOCK_HEADER_ofNat, found, free, null, foreign, assert]
  · simp [memManagerValidate, BLOCK_HEADER_ofNat, found, free, assert]

end

/-! ### Runs -/

structure Inv (s : Pool) : Prop where
  clean : Memory.Inv (restored s.manager) s.held
  marks : Marks s.manager s.damaged
  reports : s.messages.countP Message.isOverwritten + s.damaged.card = s.damages

section
variable {s : Pool} {block : Nat}

theorem Inv.more (inv : Inv s) {messages : List Message} (quiet : messages.countP Message.isOverwritten = 0) :
    Inv { s with messages := s.messages ++ messages } := by
  refine ⟨inv.clean, inv.marks, ?_⟩
  rw [List.countP_append, quiet]
  exact inv.reports

/-- A damaged header is reported when it is repaired. -/
theorem Inv.reported (inv : Inv s) (index : Int) (b : Nat) :
    (s.messages ++ if b ∈ s.damaged then [Message.overwritten index] else []).countP Message.isOverwritten + (s.damaged.erase b).card = s.damages := by
  have counted := inv.reports
  by_cases member : b ∈ s.damaged
  · have one := Finset.card_erase_add_one member
    have own : [Message.overwritten index].countP Message.isOverwritten = 1 := rfl
    rw [if_pos member, List.countP_append, own]
    omega
  · rwa [if_neg member, List.append_nil, Finset.erase_eq_of_notMem member]

theorem Inv.nulled_damaged (inv : Inv s) (nulled : Nulled s.manager block) : block ∈ s.damaged := by
  obtain ⟨header, found, null⟩ := Option.map_eq_some_iff.mp nulled
  refine (inv.marks.iff block header found).mp ?_
  rw [null]
  nofun

/-- The header of a block of the pool, and what it is when it is damaged. -/
theorem Inv.header (inv : Inv s) (inside : (block : Int) < s.manager.capacity) :
    ∃ header, s.manager.data[block]? = some header ∧ (header.isFree = false ↔ block ∈ s.held) ∧
      (block ∈ s.damaged ↔ header.manager ≠ some s.manager.address) ∧ (Nulled s.manager block ↔ header.manager = none) := by
  have fits := sized inv.clean
  have found := List.getElem?_eq_getElem (show block < s.manager.data.length by omega)
  refine ⟨_, found, ?_, (inv.marks.iff _ _ found).symm, by simp [Nulled, found]⟩
  rcases shows inv.clean found with ⟨isHeld, isFree, _⟩ | ⟨unheld, isFree, _⟩
  · exact iff_of_true isFree isHeld
  · exact iff_of_false (by simp [isFree]) unheld

theorem allocate_step (inv : Inv s) (location : Option Text) :
    (Unharmed s (.allocate location) → ∃ v, step s (.allocate location) = some v ∧ Inv v) ∧
      (¬ Unharmed s (.allocate location) → step s (.allocate location) = none) := by
  rcases allocate_spec inv.clean inv.marks location with ⟨ended, goes, stops⟩ | ⟨block, first, goes, stops⟩
  · simp only [Unharmed, ended, if_true]
    constructor
    · intro intact
      obtain ⟨after, messages, ran, clean, marks⟩ := goes intact
      refine ⟨_, by rw [step, ran]; rfl, clean, by rwa [intact], ?_⟩
      rw [List.countP_append, allocate_quiet ran]
      exact inv.reports
    · intro damaged
      rw [step, stops damaged]
      rfl
  · have some : s.manager.firstFree ≠ -1 := by omega
    have same : (∀ i ∈ s.damaged, s.manager.firstFree ≠ (i : Int)) ↔ block ∉ s.damaged := by
      rw [first]
      constructor
      · intro apart member
        exact apart block member rfl
      · rintro intact i member equal
        rw [Int.ofNat_inj.mp equal] at intact
        exact intact member
    simp only [Unharmed, some, if_false, same, not_not]
    constructor
    · intro intact
      obtain ⟨after, ran, clean, marks⟩ := goes intact
      exact ⟨_, by rw [step, ran]; rfl, clean, marks, by simpa using inv.reports⟩
    · intro member
      rw [step, stops member]
      rfl

theorem free_step (inv : Inv s) (inside : (block : Int) < s.manager.capacity) :
    (Unharmed s (.free block) → ∃ v, step s (.free block) = some v ∧ Inv v) ∧ (¬ Unharmed s (.free block) → step s (.free block) = none) := by
  obtain ⟨header, found, used, damaged, null⟩ := inv.header inside
  by_cases intact : block ∉ s.damaged
  · refine ⟨fun _ => ?_, fun harmed => absurd (.inl intact) harmed⟩
    have whole : ¬ Nulled s.manager block := fun nulled => intact (inv.nulled_damaged nulled)
    by_cases isHeld : block ∈ s.held
    · obtain ⟨after, messages, ran, marks, clean, rfl⟩ := free_spec inv.clean inv.marks isHeld intact
      obtain ⟨after', ran', -, kept⟩ := free_held inv.clean isHeld
      rw [clean] at ran'
      cases ran'
      refine ⟨_, by rw [step, ran]; rfl, ?_⟩
      rw [checked, if_neg (by simp [whole, isHeld])]
      exact ⟨kept, marks, inv.reported block (block + 1)⟩
    · have own : header.manager = some s.manager.address := not_not.mp (mt damaged.mpr intact)
      have free : header.isFree = true := Bool.of_not_eq_false (mt used.mp isHeld)
      have twice : memManagerFree s.manager block = some (s.manager, [.freedTwice s.manager.name block header.allocatedFrom]) := by
        simp [memManagerFree, BLOCK_HEADER_ofNat, found, free, own]
      refine ⟨_, by rw [step, twice]; rfl, ?_⟩
      rw [checked, if_pos (.inr isHeld)]
      exact inv.more rfl
  · have member := not_not.mp intact
    have result := free_foreign found (damaged.mp member)
    have unharmed : Unharmed s (.free block) ↔ header.isFree = false ∧ header.manager = none := by
      rw [Unharmed, or_iff_right intact, used, null]
    rw [unharmed]
    constructor
    · intro kept
      refine ⟨_, by rw [step, result, if_pos kept]; rfl, ?_⟩
      rw [checked, if_pos (.inl (null.mpr kept.2))]
      exact inv.more rfl
    · intro harmed
      rw [step, result, if_neg harmed]
      rfl

theorem validate_step (inv : Inv s) (inside : (block : Int) < s.manager.capacity) :
    (Unharmed s (.validate block) → ∃ v, step s (.validate block) = some v ∧ Inv v) ∧
      (¬ Unharmed s (.validate block) → step s (.validate block) = none) := by
  obtain ⟨header, found, used, damaged, null⟩ := inv.header inside
  by_cases isHeld : block ∈ s.held
  · simp only [Unharmed, isHeld, true_and]
    by_cases intact : block ∉ s.damaged
    · refine ⟨fun _ => ?_, fun harmed => absurd (.inl intact) harmed⟩
      have whole : ¬ Nulled s.manager block := fun nulled => intact (inv.nulled_damaged nulled)
      obtain ⟨after, messages, ran, marks, same, rfl⟩ := validate_spec inv.clean inv.marks isHeld intact
      refine ⟨_, by rw [step, ran]; rfl, ?_⟩
      rw [checked, if_neg (by simp [whole, isHeld])]
      exact ⟨by rw [same]; exact inv.clean, marks, inv.reported block (block + 1)⟩
    · have result := validate_foreign found (damaged.mp (not_not.mp intact))
      have free := used.mpr isHeld
      rw [or_iff_right intact, null]
      constructor
      · intro kept
        refine ⟨_, by rw [step, result, if_pos ⟨free, kept⟩]; rfl, ?_⟩
        rw [checked, if_pos (.inl (null.mpr kept))]
        exact inv.more rfl
      · intro harmed
        rw [step, result, if_neg (fun both => harmed both.2)]
        rfl
  · refine ⟨fun unharmed => absurd unharmed.1 isHeld, fun _ => ?_⟩
    have free : header.isFree = true := Bool.of_not_eq_false (mt used.mp isHeld)
    simp [step, memManagerValidate, BLOCK_HEADER_ofNat, found, free, assert]

theorem overrun_step (inv : Inv s) {value : Option Nat} (allowed : Allowed s (.overrun block value)) :
    ∃ v, step s (.overrun block value) = some v ∧ Inv v := by
  obtain ⟨-, next, foreign⟩ := allowed
  have fits := sized inv.clean
  have found := List.getElem?_eq_getElem (show block + 1 < s.manager.data.length by omega)
  refine ⟨_, by simp only [step, overrun, found, Option.bind_eq_bind, Option.bind_some, Option.pure_def, Option.map_some]; rfl, ?_⟩
  refine ⟨?_, marks_damage inv.marks found foreign, ?_⟩
  · change Memory.Inv (restored (setHeader _ _ _)) _
    rw [restored_write found]
    exact inv.clean
  · have counted := inv.reports
    by_cases before : block + 1 ∈ s.damaged
    · simpa [before] using counted
    · simp only [before, if_false, Finset.card_insert_of_notMem before]
      omega

/-- A call that is allowed goes on just when it comes upon no damaged header of its own. -/
theorem step_spec (inv : Inv s) {act : Act} (allowed : Allowed s act) :
    (Unharmed s act → ∃ v, step s act = some v ∧ Inv v) ∧ (¬ Unharmed s act → step s act = none) := by
  cases act with
  | allocate location => exact allocate_step inv location
  | free block => exact free_step inv allowed
  | validate block => exact validate_step inv allowed
  | overrun block value => exact ⟨fun _ => overrun_step inv allowed, fun harmed => absurd trivial harmed⟩

theorem Inv.contained (inv : Inv s) : Contained s where
  discipline := inv_disciplined inv.clean
  marks := inv.marks
  reports := inv.reports
  goes := by
    intro act allowed
    obtain ⟨goes, stops⟩ := step_spec inv allowed
    constructor
    · intro some
      by_contra harmed
      rw [stops harmed] at some
      cases some
    · intro unharmed
      obtain ⟨v, done, -⟩ := goes unharmed
      rw [done]
      rfl

end

/-- A pool that nobody has used. -/
def fresh (created : SMemoryManager) : Pool := ⟨created, ∅, ∅, 0, []⟩

/-- Whatever the holders of blocks write into the headers behind their blocks, the free list and the flags stay those of the
    calls, so that no block is handed out twice; each header that is overwritten is reported once, unless it still is, and the
    calls that fail are exactly those that come upon such a header of their own. -/
theorem overruns_contained {elementSize : UInt64} {name : Option Text} {capacity : Int} {result : Option Nat} {mutexMade dataMade : Bool}
    {created : SMemoryManager} (made : memManagerCreate elementSize name capacity result mutexMade dataMade = some (some created))
    {acts : List Act} (allowed : Guarded step Allowed (fresh created) acts) : Visits step Contained (fresh created) acts := by
  have begins : Inv (fresh created) := by
    obtain ⟨-, clean⟩ := Memory.create_inv made
    have marks : Marks created ∅ := by
      refine ⟨fun i header at' => ?_, fun i member => absurd member (Finset.notMem_empty i)⟩
      exact iff_of_false (not_not.mpr (clean.owned header (List.mem_of_getElem? at'))) (Finset.notMem_empty i)
    exact ⟨by rw [fresh, restored_intact marks]; exact clean, marks, rfl⟩
  refine visits_mono (fun s inv => Inv.contained inv) (guarded_visits ?_ begins allowed)
  intro s act t inv allowed done
  obtain ⟨goes, stops⟩ := step_spec inv allowed
  by_cases unharmed : Unharmed s act
  · obtain ⟨v, done', kept⟩ := goes unharmed
    rw [done] at done'
    cases done'
    exact kept
  · rw [stops unharmed] at done
    cases done

/-- The first of two blocks is overrun, and then freed. -/
theorem overruns_contained_two : ∃ created, memManagerCreate 8 none 2 (some 0) true true = some (some created) ∧
    Visits step Contained (fresh created) [.allocate none, .overrun 0 (some 7), .validate 0, .overrun 0 none, .free 0] := by
  refine ⟨_, rfl, @overruns_contained 8 none 2 (some 0) true true _ rfl _ ?_⟩
  refine guarded_step trivial rfl ?_
  refine guarded_step ⟨by decide, by decide, by decide⟩ rfl ?_
  refine guarded_step (show ((0 : Nat) : Int) < 2 by decide) rfl ?_
  refine guarded_step ⟨by decide, by decide, by decide⟩ rfl ?_
  exact guarded_step (show ((0 : Nat) : Int) < 2 by decide) rfl trivial

end VoxiUtil.MemoryOverruns
