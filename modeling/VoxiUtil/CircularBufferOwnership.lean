import VoxiUtil.CircularBufferFifo

/-!
Who destroys what was pushed into a circular buffer: a push on a full buffer and
`circBuf_clear` start at the tail, `circBuf_destroy` starts at the head and goes on
from there in the same direction.
-/
namespace VoxiUtil.CircularBufferOwnership
open VoxiUtil.CircularBuffer
open VoxiUtil.CircularBufferFifo
open VoxiUtil.Vector
open VoxiUtil.VectorList
open VoxiUtil.Ring
open VoxiUtil.Runs
open VoxiUtil.Limits (intMax)
variable {τ α : Type}

/-- A call before the destruction. What is pushed is not NULL. -/
inductive Use (α : Type)
  | push (element : α)
  | popTail
  | clear
deriving DecidableEq

def pushed : Use α → List α
  | .push element => [element]
  | .popTail | .clear => []

def use [DecidableEq τ] (t : τ) (c : Client τ α) : Use α → Option (Client τ α)
  | .push element => call t c (.push (some element))
  | .popTail => call t c .popTail
  | .clear => (circBufClear t c.circBuf).map fun out => ⟨out.2, c.returned, c.destroyed ++ out.1⟩

/-- Something is taken out only when there is something, and a buffer without a destroy function
    is cleared only when there is nothing. -/
def Permitted (c : Client τ α) : Use α → Prop
  | .push _ => True
  | .popTail => 0 < c.circBuf.elementCount
  | .clear => c.circBuf.destroyFunc = true ∨ c.circBuf.elementCount = 0

/-- The pointers that are left are all those from the head on. -/
def MayDestroy (circBuf : SCircularBuffer τ α) : Prop :=
  circBuf.destroyFunc = true → circBuf.elementCount ≤ 1 ∨ circBuf.elementCount = circBuf.size

/-- The free cells have NULL, and every pointer pushed so far is in the queue or came out once. -/
private structure Owned (t : τ) (size : Nat) (destroyFunc : Bool) (c : Client τ α) (pushes queue : List α)
    (free : List (Option α)) : Prop where
  placed : Placed t c.circBuf (queue.map some) free
  null : ∀ element ∈ free, element = none
  size : c.circBuf.size = size
  destroys : c.circBuf.destroyFunc = destroyFunc
  owners : destroyFunc = true → (pushes.map some).Perm (c.returned ++ (c.destroyed ++ queue.map some))

section
variable {t thread : τ} {size turns index : Nat} {destroyFunc : Bool} {circBuf : SCircularBuffer τ α}
  {vector : SVector τ (Option α)} {cells contents free seen : List (Option α)}

/-- The ring as it is seen from its head: the newest pointer, the free cells, the others. -/
theorem rotate_from_head {newest : Option α} (placed : Placed t circBuf (contents ++ [newest]) free) (length : cells.length = circBuf.size)
    (around : cells.rotate circBuf.tailIndex = contents ++ [newest] ++ free) :
    cells.rotate circBuf.headIndex = newest :: (free ++ contents) := by
  have behind : (cells.rotate circBuf.headIndex).rotate 1 = (newest :: (free ++ contents)).rotate 1 := by
    rw [List.rotate_rotate, ← List.rotate_mod, length, placed.ends, ← length, List.rotate_mod, ← List.rotate_rotate, around,
      List.rotate_append_length_eq, List.rotate_cons_succ, List.rotate_zero, List.append_assoc]
  exact List.rotate_injective 1 behind

variable [DecidableEq τ]

theorem clearLoop_placed (placed : Placed t circBuf contents free) (destroy : circBuf.destroyFunc = true) :
    ∃ circBuf', clearLoop t contents.length circBuf = some (contents, circBuf') ∧
      Placed t circBuf' [] (free ++ List.replicate contents.length none) ∧ Same circBuf circBuf' := by
  induction contents generalizing circBuf free with
  | nil =>
    refine ⟨circBuf, ?_, by simpa using placed, ⟨rfl, rfl⟩⟩
    rw [List.length_nil, clearLoop, placed.count]
    rfl
  | cons first rest ih =>
    obtain ⟨middle, popped, kept, same⟩ := pop_placed placed
    have destroys : middle.destroyFunc = true := same.destroyFunc.trans destroy
    obtain ⟨circBuf', cleared, empty, others⟩ := ih kept destroys
    have some : 0 < circBuf.elementCount := placed.count.symm ▸ Nat.succ_pos rest.length
    refine ⟨circBuf', ?_, ?_, same.trans others⟩
    · simp only [List.length_cons, clearLoop, if_pos some, popped, assert_true destroys, cleared, Option.bind_eq_bind,
        Option.bind_some]
    · rwa [List.append_assoc, ← List.replicate_one, List.replicate_append_replicate, Nat.add_comm] at empty

/-- `circBuf_clear` destroys the queue from its oldest pointer on. -/
theorem clear_placed (placed : Placed t circBuf contents free) (destroy : circBuf.destroyFunc = true) :
    ∃ circBuf', circBufClear t circBuf = some (contents, circBuf') ∧
      Placed t circBuf' [] (free ++ List.replicate contents.length none) ∧ Same circBuf circBuf' := by
  rw [circBufClear, placed.count]
  exact clearLoop_placed placed destroy

theorem clear_empty (placed : Placed t circBuf [] free) : circBufClear t circBuf = some ([], circBuf) := by
  rw [circBufClear, placed.count, List.length_nil, clearLoop, placed.count]
  rfl

/-- The call of NULL. -/
theorem clear_null {first : Option α} (placed : Placed t circBuf (first :: contents) free)
    (destroy : circBuf.destroyFunc = false) : circBufClear t circBuf = none := by
  obtain ⟨middle, popped, -, same⟩ := pop_placed placed
  have null : ¬ middle.destroyFunc = true := by
    rw [same.destroyFunc, destroy]
    exact Bool.false_ne_true
  have stops : assert (middle.destroyFunc = true) = none := assert_false null
  simp only [circBufClear, placed.count, List.length_cons, clearLoop, if_pos (Nat.succ_pos contents.length), popped,
    Option.bind_eq_bind, Option.bind_some, stops, Option.bind_none]

/-- The loop of `circBuf_destroy` goes around the ring from where it starts. -/
theorem destroyLoop_around (holding : Holding t vector 0 cells) (length : cells.length = size) (small : size ≤ intMax)
    (inside : index < size) (around : cells.rotate index = seen) (fits : turns ≤ size) :
    destroyLoop t size turns vector index = some (seen.take turns) := by
  induction turns generalizing vector index seen with
  | zero => rfl
  | succ turns ih =>
    have here : index < cells.length := inside.trans_eq length.symm
    have whole : seen.length = size := by rw [← around, List.length_rotate, length]
    cases seen with
    | nil => exact absurd (Nat.zero_lt_of_lt inside) (by simp [← whole])
    | cons first rest =>
      obtain ⟨vector', got, kept⟩ := get_unlocked holding here
      rw [rotate_head here around] at got
      have next : (if index + 1 = size then 0 else index + 1) = (index + 1) % size := by
        by_cases last : index + 1 = size
        · rw [if_pos last, last, Nat.mod_self]
        · rw [if_neg last, Nat.mod_eq_of_lt (by omega)]
      have moved := rotate_next around
      rw [length] at moved
      have later := ih kept (Nat.mod_lt _ (Nat.zero_lt_of_lt inside)) moved (Nat.le_of_succ_le fits)
      rw [List.length_cons] at whole
      rw [List.take_append_of_le_length (by omega)] at later
      simp only [destroyLoop, got, assert_true (inside.trans_le small), assert_true (Nat.succ_le_of_lt inside), next, later,
        Option.bind_eq_bind, Option.bind_some, List.take_succ_cons]

/-- What `circBuf_destroy` destroys. -/
theorem destroy_placed {newest : Option α} (placed : Placed t circBuf (contents ++ [newest]) free) :
    circBufDestroy t circBuf =
      some (if circBuf.destroyFunc then (newest :: (free ++ contents)).take (contents.length + 1) else []) := by
  obtain ⟨cells, holding, length, around⟩ := placed.cells
  have room := placed.length
  rw [List.length_append, List.length_singleton] at room
  have fits : contents.length + 1 ≤ circBuf.size := by omega
  have loop := destroyLoop_around holding length placed.small placed.head (rotate_from_head placed length around) fits
  have count : circBuf.elementCount = contents.length + 1 := by
    rw [placed.count, List.length_append, List.length_singleton]
  rw [circBufDestroy, count, loop, ← apply_ite some]
  simp only [assert_true holding.refCount, Option.bind_eq_bind, Option.bind_some]

theorem destroy_empty (placed : Placed t circBuf [] free) : circBufDestroy t circBuf = some [] := by
  obtain ⟨cells, holding, -⟩ := placed.cells
  rw [circBufDestroy, placed.count, List.length_nil, destroyLoop, ite_self]
  simp only [assert_true holding.refCount, Option.bind_eq_bind, Option.bind_some]

/-- A pointer put into a list of pointers. -/
private theorem owners_push {pushes : List α} {out inside : List (Option α)} (owners : (pushes.map some).Perm (out ++ inside))
    (element : α) : ((pushes ++ [element]).map some).Perm (out ++ (inside ++ [some element])) := by
  rw [List.map_append, ← List.append_assoc]
  exact owners.append_right _

variable {c : Client τ α} {pushes queue : List α} {function : Use α}

private theorem push_owned (owned : Owned t size destroyFunc c pushes queue free) (element : α) :
    ∃ c', use t c (.push element) = some c' ∧
      ∃ queue free, Owned t size destroyFunc c' (pushes ++ [element]) queue free := by
  obtain ⟨placed, null, rfl, rfl, owners⟩ := owned
  have room := placed.length
  cases free with
  | cons other free =>
    obtain ⟨circBuf, done, kept, same⟩ := push_placed placed (some element)
    refine ⟨_, congrArg (Option.map _) done, queue ++ [element], free, ?_, ?_, same.size, same.destroyFunc, fun destroys => ?_⟩
    · rwa [List.map_append]
    · exact fun e member => null e (List.mem_cons_of_mem other member)
    · have moved := owners_push (owners destroys) element
      simpa [List.append_assoc] using moved
  | nil =>
    cases queue with
    | nil => exact absurd room (Nat.ne_of_lt (Nat.zero_lt_of_lt placed.tail))
    | cons first rest =>
      obtain ⟨circBuf, done, kept, same⟩ := push_full placed (some element)
      refine ⟨_, congrArg (Option.map _) done, rest ++ [element], [], ?_, nofun, same.size, same.destroyFunc, fun destroys => ?_⟩
      · rwa [List.map_append]
      · have moved := owners_push (owners destroys) element
        rw [destroys, if_pos rfl]
        simpa [List.append_assoc] using moved

private theorem pop_owned (owned : Owned t size destroyFunc c pushes queue free) (some : 0 < c.circBuf.elementCount) :
    ∃ c', use t c .popTail = .some c' ∧ ∃ queue free, Owned t size destroyFunc c' pushes queue free := by
  obtain ⟨placed, null, rfl, rfl, owners⟩ := owned
  cases queue with
  | nil => exact absurd placed.count (Nat.ne_of_gt some)
  | cons first rest =>
    obtain ⟨circBuf, done, kept, same⟩ := pop_placed placed
    refine ⟨_, congrArg (Option.map _) done, rest, _, kept, ?_, same.size, same.destroyFunc, fun destroys => ?_⟩
    · intro element member
      rcases List.mem_append.mp member with old | new
      · exact null element old
      · exact List.mem_singleton.mp new
    · refine (owners destroys).trans ?_
      rw [List.append_assoc, List.singleton_append]
      exact List.perm_middle.append_left c.returned

private theorem clear_owned (owned : Owned t size destroyFunc c pushes queue free)
    (permitted : c.circBuf.destroyFunc = true ∨ c.circBuf.elementCount = 0) :
    ∃ c', use t c .clear = some c' ∧ ∃ queue free, Owned t size destroyFunc c' pushes queue free := by
  obtain ⟨placed, null, rfl, rfl, owners⟩ := owned
  cases queue with
  | nil =>
    refine ⟨_, congrArg (Option.map _) (clear_empty placed), [], free, placed, null, rfl, rfl, fun destroys => ?_⟩
    simpa using owners destroys
  | cons first rest =>
    have destroys : c.circBuf.destroyFunc = true :=
      permitted.resolve_right fun empty => absurd (empty.symm.trans placed.count) (Nat.ne_of_lt (Nat.succ_pos _))
    obtain ⟨circBuf, done, kept, same⟩ := clear_placed placed destroys
    refine ⟨_, congrArg (Option.map _) done, [], _, kept, ?_, same.size, same.destroyFunc, fun destroys => ?_⟩
    · intro element member
      rcases List.mem_append.mp member with old | new
      · exact null element old
      · exact List.eq_of_mem_replicate new
    · simpa using owners destroys

private theorem use_owned (owned : ∃ queue free, Owned t size destroyFunc c pushes queue free) (permitted : Permitted c function) :
    ∃ c', use t c function = some c' ∧ ∃ queue free, Owned t size destroyFunc c' (pushes ++ pushed function) queue free := by
  obtain ⟨queue, free, owned⟩ := owned
  cases function with
  | push element => exact push_owned owned element
  | popTail =>
    rw [pushed, List.append_nil]
    exact pop_owned owned permitted
  | clear =>
    rw [pushed, List.append_nil]
    exact clear_owned owned permitted

private theorem use_stuck (owned : ∃ queue free, Owned t size destroyFunc c pushes queue free)
    (forbidden : ¬ Permitted c function) : use t c function = none := by
  obtain ⟨queue, free, owned⟩ := owned
  cases function with
  | push element => exact absurd trivial forbidden
  | popTail =>
    have stops : assert (0 < c.circBuf.elementCount) = none := assert_false forbidden
    rw [use, call, circBufPopTail, stops]
    rfl
  | clear =>
    obtain ⟨null, some⟩ := not_or.mp forbidden
    cases queue with
    | nil => exact absurd owned.placed.count some
    | cons first rest => rw [use, clear_null owned.placed (Bool.eq_false_of_not_eq_true null), Option.map_none]

private theorem run_owned (start : ∃ queue free, Owned t size destroyFunc c [] queue free) (calls : List (Use α)) :
    ((∃ c', run (use t) c calls = some c') ↔ Guarded (use t) Permitted c calls) ∧
      ∀ c', run (use t) c calls = some c' → ∃ queue free, Owned t size destroyFunc c' (calls.flatMap pushed) queue free := by
  have total : ∀ P : Client τ α → List α → Prop,
      (∀ c pushes, (∃ queue free, Owned t size destroyFunc c pushes queue free) → P c pushes) →
        ((∃ c', run (use t) c calls = some c' ∧ P c' (calls.flatMap pushed)) ↔ Guarded (use t) Permitted c calls) := by
    intro P sound
    have simulated : (∃ c', run (use t) c calls = some c' ∧
        P c' (calls.foldl (fun pushes function => pushes ++ pushed function) [])) ↔ Guarded (use t) Permitted c calls := by
      refine simulates_iff_guarded (R := fun c pushes => ∃ queue free, Owned t size destroyFunc c pushes queue free) ?_ ?_
        sound start (guarded_forall fun _ _ _ => trivial)
      · exact fun _ _ _ owned _ permitted => use_owned owned permitted
      · exact fun _ _ _ owned _ forbidden => use_stuck owned forbidden
    rwa [List.foldl_append_eq_append, List.nil_append, ← List.flatMap_def] at simulated
  have defined := total (fun _ _ => True) fun _ _ _ => trivial
  simp only [and_true] at defined
  refine ⟨defined, fun c' ran => ?_⟩
  obtain ⟨other, again, owned⟩ := (total _ fun _ _ owned => owned).mpr (defined.mp ⟨c', ran⟩)
  obtain rfl := Option.some.inj (ran.symm.trans again)
  exact owned

/-- The end: what is left is destroyed once, just when the way from the head on meets no free
    cell first. -/
private theorem destroy_iff (owned : Owned t size destroyFunc c pushes queue free) :
    (∃ destroyed, circBufDestroy t c.circBuf = some destroyed ∧
      (destroyFunc = true → (pushes.map some).Perm (c.returned ++ (c.destroyed ++ destroyed)))) ↔ MayDestroy c.circBuf := by
  obtain ⟨placed, null, rfl, rfl, owners⟩ := owned
  have counted := placed.count
  have room := placed.length
  rw [List.length_map] at counted room
  rcases List.eq_nil_or_concat queue with rfl | ⟨others, newest, rfl⟩
  · refine ⟨fun _ _ => .inl (counted.trans_le (Nat.zero_le 1)), fun _ => ⟨[], destroy_empty placed, owners⟩⟩
  · rw [List.length_concat] at counted room
    rw [List.concat_eq_append, List.map_append] at owners placed
    have done : circBufDestroy t c.circBuf = _ := destroy_placed placed
    rw [List.length_map] at done
    cases destroys : c.circBuf.destroyFunc with
    | false =>
      rw [destroys] at done
      exact ⟨fun _ destroy => absurd (destroys.symm.trans destroy) Bool.false_ne_true, fun _ => ⟨_, done, nofun⟩⟩
    | true =>
      rw [destroys, if_pos rfl] at done
      rw [done, MayDestroy, counted]
      simp only [Option.some.injEq, exists_eq_left', destroys, forall_const]
      constructor
      · intro owns
        by_contra between
        obtain ⟨several, partly⟩ := not_or.mp between
        cases others with
        | nil => exact several (Nat.le_refl 1)
        | cons first rest =>
          cases free with
          | nil => exact partly room
          | cons hole free =>
            -- the second pointer from the head on is that of a free cell
            obtain rfl : hole = none := null hole List.mem_cons_self
            have passed : none ∈ pushes.map some := owns.mem_iff.mpr (by simp)
            simp at passed
      · rintro (single | full)
        · obtain rfl : others = [] := List.length_eq_zero_iff.mp (by omega)
          simpa using owners destroys
        · obtain rfl : free = [] := List.length_eq_zero_iff.mp (by omega)
          refine (owners destroys).trans (List.Perm.append_left _ (List.Perm.append_left _ ?_))
          rw [List.nil_append, List.take_of_length_le (by simp)]
          exact List.perm_append_singleton _ _

/-- Every pointer pushed comes out once, taken or destroyed, just when a buffer without a destroy
    function is cleared only when it is empty and one with a destroy function has none, one or
    all of its cells filled at the end. -/
theorem ownership_iff (t thread : τ) {size : Nat} (wide : 1 < size) (small : size ≤ intMax) (destroyFunc : Bool)
    (calls : List (Use α)) :
    (∃ circBuf c destroyed, circBufCreate t thread size destroyFunc = some circBuf ∧
      run (use t) ⟨circBuf, [], []⟩ calls = some c ∧ circBufDestroy t c.circBuf = some destroyed ∧
      (destroyFunc = true → ((calls.flatMap pushed).map some).Perm (c.returned ++ (c.destroyed ++ destroyed)))) ↔
      ∀ circBuf, circBufCreate t thread size destroyFunc = some circBuf →
        Guarded (use t) Permitted ⟨circBuf, [], []⟩ calls ∧
          ∀ c, run (use t) ⟨circBuf, [], []⟩ calls = some c → MayDestroy c.circBuf := by
  obtain ⟨vector, created, holding⟩ := circBufCreate_holding (α := α) t thread small destroyFunc
  have start : Owned t size destroyFunc (⟨⟨size, vector, 0, 1, 0, destroyFunc⟩, [], []⟩ : Client τ α) [] []
      (List.replicate size none) :=
    ⟨create_placed holding wide small, fun _ member => List.eq_of_mem_replicate member, rfl, rfl, fun _ => List.Perm.nil⟩
  have ran := run_owned ⟨[], _, start⟩ calls
  constructor
  · rintro ⟨circBuf, c, destroyed, made, reached, done, owns⟩ other again
    obtain rfl := Option.some.inj (made.symm.trans again)
    obtain rfl := Option.some.inj (made.symm.trans created)
    refine ⟨ran.1.mp ⟨c, reached⟩, fun c' reached' => ?_⟩
    obtain rfl := Option.some.inj (reached.symm.trans reached')
    obtain ⟨queue, free, owned⟩ := ran.2 c reached
    exact (destroy_iff owned).mp ⟨destroyed, done, owns⟩
  · intro each
    obtain ⟨permitted, may⟩ := each _ created
    obtain ⟨c, reached⟩ := ran.1.mpr permitted
    obtain ⟨queue, free, owned⟩ := ran.2 c reached
    obtain ⟨destroyed, done, owns⟩ := (destroy_iff owned).mpr (may c reached)
    exact ⟨_, c, destroyed, created, reached, done, owns⟩

/-- The calls of a program that leaves one pointer in its buffer. -/
def sampleUses : List (Use Char) := [.push 'a', .push 'b', .popTail, .push 'c', .push 'd', .push 'e', .clear, .push 'f']

theorem ownership_iff_sample :
    (∃ circBuf c destroyed, circBufCreate () () 3 true = some circBuf ∧ run (use ()) ⟨circBuf, [], []⟩ sampleUses = some c ∧
      circBufDestroy () c.circBuf = some destroyed ∧
      (true = true → ((sampleUses.flatMap pushed).map some).Perm (c.returned ++ (c.destroyed ++ destroyed)))) ↔
      ∀ circBuf, circBufCreate () () 3 true = some circBuf →
        Guarded (use ()) Permitted ⟨circBuf, [], []⟩ sampleUses ∧
          ∀ c, run (use ()) ⟨circBuf, [], []⟩ sampleUses = some c → MayDestroy c.circBuf :=
  ownership_iff () () (by decide) (by decide) true sampleUses

/-- Two pointers in a buffer of three cells: NULL is destroyed in place of the older one. Without
    a destroy function, one pointer that is cleared: NULL is called. -/
theorem ownership_fails :
    (¬ ∃ circBuf c destroyed, circBufCreate () () 3 true = some circBuf ∧
      run (use ()) ⟨circBuf, [], []⟩ [.push 'a', .push 'b'] = some c ∧ circBufDestroy () c.circBuf = some destroyed ∧
      (true = true → (([Use.push 'a', .push 'b'].flatMap pushed).map some).Perm (c.returned ++ (c.destroyed ++ destroyed)))) ∧
    ¬ ∃ circBuf c destroyed, circBufCreate () () 2 false = some circBuf ∧
      run (use ()) ⟨circBuf, [], []⟩ [.push 'a', .clear] = some c ∧ circBufDestroy () c.circBuf = some destroyed ∧
      (false = true → (([Use.push 'a', .clear].flatMap pushed).map some).Perm (c.returned ++ (c.destroyed ++ destroyed))) := by
  refine ⟨?_, ?_⟩
  · rintro ⟨circBuf, c, destroyed, ⟨⟩, ⟨⟩, ⟨⟩, owns⟩
    exact absurd (owns rfl) (by decide)
  · rintro ⟨circBuf, c, destroyed, ⟨⟩, ran, -⟩
    cases ran

end

end VoxiUtil.CircularBufferOwnership
