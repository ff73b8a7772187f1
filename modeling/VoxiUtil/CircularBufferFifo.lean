import VoxiUtil.CircularBuffer
import VoxiUtil.Ring

/-!
A circular buffer as a queue that overwrites its oldest element: the ring from the
tail on has the elements of the queue and then its free cells.
-/
namespace VoxiUtil.CircularBufferFifo
open VoxiUtil.CircularBuffer
open VoxiUtil.Vector
open VoxiUtil.VectorList
open VoxiUtil.Ring
open VoxiUtil.Runs
open VoxiUtil.Limits (intMax sizeMax pointerSize)
variable {τ α : Type}

/-- The buffer with these pointers, the oldest first, and these in the cells behind them. -/
structure Placed (t : τ) (circBuf : SCircularBuffer τ α) (contents free : List (Option α)) : Prop where
  count : circBuf.elementCount = contents.length
  wide : 1 < circBuf.size
  small : circBuf.size ≤ intMax
  head : circBuf.headIndex < circBuf.size
  tail : circBuf.tailIndex < circBuf.size
  ends : (circBuf.headIndex + 1) % circBuf.size = (circBuf.tailIndex + contents.length) % circBuf.size
  cells : ∃ cells, Holding t circBuf.vector 0 cells ∧ cells.length = circBuf.size ∧
    cells.rotate circBuf.tailIndex = contents ++ free

/-- What no operation changes. -/
structure Same (circBuf circBuf' : SCircularBuffer τ α) : Prop where
  size : circBuf'.size = circBuf.size
  destroyFunc : circBuf'.destroyFunc = circBuf.destroyFunc

theorem Same.trans {first second third : SCircularBuffer τ α} (one : Same first second) (other : Same second third) :
    Same first third :=
  ⟨other.size.trans one.size, other.destroyFunc.trans one.destroyFunc⟩

theorem nextIndex_inside {size index : Nat} (inside : index < size) (small : size ≤ intMax) :
    nextIndex size index = some ((index + 1) % size) := by
  unfold nextIndex
  by_cases last : index + 1 = size
  · rw [if_pos last, last, Nat.mod_self]
  · rw [if_neg last, assert_true (inside.trans_le small), Nat.mod_eq_of_lt (Nat.lt_of_le_of_ne inside last)]
    rfl

section
variable {t thread : τ} {circBuf : SCircularBuffer τ α} {vector : SVector τ (Option α)} {cells contents free : List (Option α)}
  {index : Nat}

theorem Placed.length (placed : Placed t circBuf contents free) : contents.length + free.length = circBuf.size := by
  obtain ⟨cells, -, length, seen⟩ := placed.cells
  rw [← length, ← List.length_rotate cells circBuf.tailIndex, seen, List.length_append]

theorem unlocked_fits (holding : Holding t vector 0 cells) : Fits vector False :=
  ⟨holding.lock.count.trans_lt (by decide), False.elim⟩

theorem create_placed {size : Nat} {destroyFunc : Bool} (holding : Holding t vector 0 (List.replicate size none))
    (wide : 1 < size) (small : size ≤ intMax) :
    Placed t ⟨size, vector, 0, 1, 0, destroyFunc⟩ [] (List.replicate size none) :=
  ⟨rfl, wide, small, Nat.zero_lt_of_lt wide, wide, rfl, _, holding, List.length_replicate, List.rotate_replicate none size 1⟩

variable [DecidableEq τ]

/-- An element read from a vector that nobody has locked. -/
theorem get_unlocked (holding : Holding t vector 0 cells) (inside : index < cells.length) :
    ∃ vector', vectorGetElementAt t vector index = some (cells[index], vector') ∧ Holding t vector' 0 cells := by
  obtain ⟨vector', done, kept, -⟩ := get_holding holding (unlocked_fits holding) inside
  exact ⟨vector', done, kept⟩

/-- An element of a vector that nobody has locked, overwritten. -/
theorem set_unlocked (holding : Holding t vector 0 cells) (inside : index < cells.length) (element : Option α) :
    ∃ vector', vectorSetElementAt t vector index element = some vector' ∧ Holding t vector' 0 (cells.set index element) := by
  obtain ⟨vector', done, kept, -⟩ := set_holding holding (unlocked_fits holding) inside element
  exact ⟨vector', done, kept⟩

/-- The vector of a new buffer never has to grow. -/
theorem setNull_holding (t thread : τ) (size : Nat) : ∀ count ≤ size, ∃ vector,
    setNull (α := α) t (created thread pointerSize size 1 false) count = some vector ∧
      Holding t vector 0 (List.replicate count none) ∧ vector.capacity = size := by
  intro count
  induction count with
  | zero => exact fun _ => ⟨_, rfl, create_holding t thread pointerSize size false Nat.one_pos, rfl⟩
  | succ count ih =>
    intro inside
    obtain ⟨vector, done, holding, capacity⟩ := ih (Nat.le_of_succ_le inside)
    have room : (List.replicate count (none : Option α)).length < vector.capacity := by
      rw [List.length_replicate, capacity]
      exact inside
    have fits : Fits vector True :=
      ⟨holding.lock.count.trans_lt (by decide), fun _ full => absurd (holding.count.symm.trans full) room.ne⟩
    obtain ⟨vector', set, kept, -, still⟩ := set_end_holding holding fits none
    rw [List.length_replicate] at set
    refine ⟨vector', ?_, List.replicate_succ' ▸ kept, (still room).trans capacity⟩
    rw [setNull, done, Option.bind_eq_bind, Option.bind_some, set]

theorem circBufCreate_holding (t thread : τ) {size : Nat} (small : size ≤ intMax) (destroyFunc : Bool) :
    ∃ vector, circBufCreate (α := α) t thread size destroyFunc = some ⟨size, vector, 0, 1, 0, destroyFunc⟩ ∧
      Holding t vector 0 (List.replicate size none) := by
  obtain ⟨vector, done, holding, -⟩ := setNull_holding (α := α) t thread size size (Nat.le_refl size)
  refine ⟨vector, ?_, holding⟩
  have bytes : pointerSize * size ≤ sizeMax := by
    unfold pointerSize sizeMax
    unfold intMax at small
    omega
  simp only [circBufCreate, vectorCreate, assert_true bytes, Option.bind_eq_bind, Option.bind_some, done]

/-- The tail goes on to the next cell, which leaves the oldest pointer behind the free cells. -/
theorem discard_placed {first : Option α} (placed : Placed t circBuf (first :: contents) free) :
    ∃ circBuf', discardTail t circBuf = some (if circBuf.destroyFunc then [first] else [], circBuf') ∧
      Placed t circBuf' contents (free ++ [first]) ∧ Same circBuf circBuf' := by
  obtain ⟨cells, holding, length, seen⟩ := placed.cells
  have inside : circBuf.tailIndex < cells.length := placed.tail.trans_eq length.symm
  have positive : 0 < circBuf.size := Nat.zero_lt_of_lt placed.tail
  have ends : (circBuf.headIndex + 1) % circBuf.size =
      ((circBuf.tailIndex + 1) % circBuf.size + contents.length) % circBuf.size := by
    rw [placed.ends, List.length_cons, Nat.mod_add_mod]
    congr 1
    omega
  have next : cells.rotate ((circBuf.tailIndex + 1) % circBuf.size) = contents ++ (free ++ [first]) := by
    have moved : cells.rotate ((circBuf.tailIndex + 1) % cells.length) = contents ++ free ++ [first] := rotate_next seen
    rwa [length, List.append_assoc] at moved
  have read : ∃ vector', (if circBuf.destroyFunc then
      (vectorGetElementAt t circBuf.vector circBuf.tailIndex).map fun out => ([out.1], out.2)
      else some ([], circBuf.vector)) = some (if circBuf.destroyFunc then [first] else [], vector') ∧
        Holding t vector' 0 cells := by
    cases circBuf.destroyFunc with
    | false => exact ⟨_, rfl, holding⟩
    | true =>
      obtain ⟨vector', got, kept⟩ := get_unlocked holding inside
      rw [rotate_head inside seen] at got
      exact ⟨vector', congrArg (Option.map _) got, kept⟩
  obtain ⟨vector', got, kept⟩ := read
  refine ⟨{ circBuf with vector := vector', tailIndex := (circBuf.tailIndex + 1) % circBuf.size,
                         elementCount := circBuf.elementCount - 1 }, ?_, ?_, ⟨rfl, rfl⟩⟩
  · simp only [discardTail, got, nextIndex_inside placed.tail placed.small, Option.bind_eq_bind, Option.bind_some]
  · exact { placed with
            count := by simp [placed.count]
            tail := Nat.mod_lt _ positive
            ends := ends
            cells := ⟨cells, kept, length, next⟩ }

/-- A pointer written into the first free cell. -/
theorem place_placed {other : Option α} (placed : Placed t circBuf contents (other :: free)) (element : Option α) :
    ∃ vector headIndex, nextIndex circBuf.size circBuf.headIndex = some headIndex ∧
      vectorSetElementAt t circBuf.vector headIndex element = some vector ∧
      Placed t { circBuf with headIndex := headIndex, vector := vector, elementCount := circBuf.elementCount + 1 }
        (contents ++ [element]) free := by
  obtain ⟨cells, holding, length, seen⟩ := placed.cells
  have positive : 0 < circBuf.size := Nat.zero_lt_of_lt placed.tail
  have room := placed.length
  rw [List.length_cons] at room
  have inside : (circBuf.headIndex + 1) % circBuf.size < cells.length := (Nat.mod_lt _ positive).trans_eq length.symm
  obtain ⟨vector, set, kept⟩ := set_unlocked holding inside element
  refine ⟨vector, _, nextIndex_inside placed.head placed.small, set, ?_⟩
  have written : (cells.set ((circBuf.headIndex + 1) % circBuf.size) element).rotate circBuf.tailIndex =
      contents ++ [element] ++ free := by
    have here : contents.length < cells.length := by omega
    rw [placed.ends, ← length, rotate_set here, seen, List.set_append_right _ _ (Nat.le_refl _), Nat.sub_self, List.set_cons_zero,
      List.append_assoc]
    rfl
  exact { placed with
          count := by rw [placed.count, List.length_append, List.length_singleton]
          head := Nat.mod_lt _ positive
          ends := by
            rw [Nat.mod_add_mod, Nat.add_right_comm, ← Nat.mod_add_mod, placed.ends, Nat.mod_add_mod, List.length_append,
              List.length_singleton, Nat.add_assoc]
          cells := ⟨_, kept, (List.length_set).trans length, written⟩ }

/-- A push with a free cell. -/
theorem push_placed {other : Option α} (placed : Placed t circBuf contents (other :: free)) (element : Option α) :
    ∃ circBuf', circBufPush t circBuf element = some ([], circBuf') ∧ Placed t circBuf' (contents ++ [element]) free ∧
      Same circBuf circBuf' := by
  obtain ⟨vector, headIndex, next, set, kept⟩ := place_placed placed element
  have room := placed.length
  rw [List.length_cons] at room
  have notFull : circBuf.elementCount ≠ circBuf.size := by
    rw [placed.count]
    omega
  have fits : circBuf.elementCount + 1 ≤ circBuf.size := by
    rw [placed.count]
    omega
  refine ⟨_, ?_, kept, ⟨rfl, rfl⟩⟩
  simp only [circBufPush, if_neg notFull, next, set, assert_true fits, Option.bind_eq_bind, Option.bind_some]

/-- A push on a full buffer, which discards the oldest pointer. -/
theorem push_full {first : Option α} (placed : Placed t circBuf (first :: contents) []) (element : Option α) :
    ∃ circBuf', circBufPush t circBuf element = some (if circBuf.destroyFunc then [first] else [], circBuf') ∧
      Placed t circBuf' (contents ++ [element]) [] ∧ Same circBuf circBuf' := by
  obtain ⟨middle, discarded, moved, same⟩ := discard_placed placed
  obtain ⟨vector, headIndex, next, set, kept⟩ := place_placed moved element
  have full : circBuf.elementCount = circBuf.size := placed.count.trans placed.length
  have fits : middle.elementCount + 1 ≤ middle.size := by
    rw [moved.count]
    exact moved.length.le
  refine ⟨_, ?_, kept, same.trans ⟨rfl, rfl⟩⟩
  simp only [circBufPush, if_pos full, discarded, next, set, assert_true fits, Option.bind_eq_bind, Option.bind_some]

/-- The oldest pointer taken out, with NULL left in its cell. -/
theorem pop_placed {first : Option α} (placed : Placed t circBuf (first :: contents) free) :
    ∃ circBuf', circBufPopTail t circBuf = some (first, circBuf') ∧ Placed t circBuf' contents (free ++ [none]) ∧
      Same circBuf circBuf' := by
  obtain ⟨cells, holding, length, seen⟩ := placed.cells
  have inside : circBuf.tailIndex < cells.length := placed.tail.trans_eq length.symm
  have positive : 0 < circBuf.size := Nat.zero_lt_of_lt placed.tail
  obtain ⟨vector, got, same⟩ := get_unlocked holding inside
  rw [rotate_head inside seen] at got
  obtain ⟨vector', set, kept⟩ := set_unlocked same inside none
  have some : 0 < circBuf.elementCount := placed.count.symm ▸ Nat.succ_pos contents.length
  have cleared : (cells.set circBuf.tailIndex none).rotate circBuf.tailIndex = none :: (contents ++ free) := by
    have here : (circBuf.tailIndex + 0) % cells.length = circBuf.tailIndex := Nat.mod_eq_of_lt inside
    have written := rotate_set (Nat.zero_lt_of_lt inside) circBuf.tailIndex (none : Option α)
    rw [here, seen] at written
    exact written
  have next : (cells.set circBuf.tailIndex none).rotate ((circBuf.tailIndex + 1) % circBuf.size) =
      contents ++ (free ++ [none]) := by
    have moved := rotate_next cleared
    rwa [List.length_set, length, List.append_assoc] at moved
  refine ⟨{ circBuf with vector := vector', tailIndex := (circBuf.tailIndex + 1) % circBuf.size,
                         elementCount := circBuf.elementCount - 1 }, ?_, ?_, ⟨rfl, rfl⟩⟩
  · simp only [circBufPopTail, assert_true some, got, set, nextIndex_inside placed.tail placed.small, Option.bind_eq_bind,
      Option.bind_some]
  · exact { placed with
            count := by simp [placed.count]
            tail := Nat.mod_lt _ positive
            ends := by
              rw [placed.ends, List.length_cons, Nat.mod_add_mod]
              congr 1
              omega
            cells := ⟨_, kept, (List.length_set).trans length, next⟩ }

end

/-! ### Runs -/

inductive Call (α : Type)
  | push (element : Option α)
  | popTail
deriving DecidableEq

/-- A buffer, what was taken out of it and what was given to the destroy function. -/
structure Client (τ α : Type) where
  circBuf : SCircularBuffer τ α
  returned : List (Option α)
  destroyed : List (Option α)

def call [DecidableEq τ] (t : τ) (c : Client τ α) : Call α → Option (Client τ α)
  | .push element => (circBufPush t c.circBuf element).map fun out => ⟨out.2, c.returned, c.destroyed ++ out.1⟩
  | .popTail => (circBufPopTail t c.circBuf).map fun out => ⟨out.2, c.returned ++ [out.1], c.destroyed⟩

/-- Something is taken out only when there is something. -/
def Allowed (c : Client τ α) : Call α → Prop
  | .push _ => True
  | .popTail => 0 < circBufGetElementCount c.circBuf

instance (c : Client τ α) (function : Call α) : Decidable (Allowed c function) :=
  match function with
  | .push _ => .isTrue trivial
  | .popTail => inferInstanceAs (Decidable (0 < circBufGetElementCount c.circBuf))

/-- A queue that keeps its last pointers, and all that came out of it. -/
structure Overwriting (α : Type) where
  queue : List (Option α)
  returned : List (Option α)
  destroyed : List (Option α)

/-- What a call does to such a queue of at most `size` pointers. -/
def queueCall (size : Nat) (destroyFunc : Bool) (q : Overwriting α) : Call α → Overwriting α
  | .push element =>
    if q.queue.length = size then
      ⟨q.queue.tail ++ [element], q.returned, q.destroyed ++ if destroyFunc then q.queue.take 1 else []⟩
    else { q with queue := q.queue ++ [element] }
  | .popTail => ⟨q.queue.tail, q.returned ++ q.queue.take 1, q.destroyed⟩

/-- A client that has seen of its buffer what it would have seen of the queue. -/
structure Agrees (size : Nat) (c : Client τ α) (q : Overwriting α) : Prop where
  count : c.circBuf.elementCount = q.queue.length
  room : c.circBuf.elementCount ≤ size
  returned : c.returned = q.returned
  destroyed : c.destroyed = q.destroyed

private structure Inv (t : τ) (size : Nat) (destroyFunc : Bool) (c : Client τ α) (q : Overwriting α) : Prop where
  placed : ∃ free, Placed t c.circBuf q.queue free
  size : c.circBuf.size = size
  destroyFunc : c.circBuf.destroyFunc = destroyFunc
  returned : c.returned = q.returned
  destroyed : c.destroyed = q.destroyed

private theorem Inv.agrees {t : τ} {size : Nat} {destroyFunc : Bool} {c : Client τ α} {q : Overwriting α}
    (inv : Inv t size destroyFunc c q) : Agrees size c q := by
  obtain ⟨free, placed⟩ := inv.placed
  refine ⟨placed.count, ?_, inv.returned, inv.destroyed⟩
  rw [placed.count, ← inv.size, ← placed.length]
  exact Nat.le_add_right _ _

section
variable [DecidableEq τ] {t thread : τ} {size : Nat} {destroyFunc : Bool} {c : Client τ α} {q : Overwriting α} {calls : List (Call α)}

private theorem call_inv (inv : Inv t size destroyFunc c q) {function : Call α} (allowed : Allowed c function) :
    ∃ c', call t c function = some c' ∧ Inv t size destroyFunc c' (queueCall size destroyFunc q function) := by
  obtain ⟨queue, returned, destroyed⟩ := q
  obtain ⟨⟨free, placed⟩, rfl, rfl, rfl, rfl⟩ := inv
  have room : queue.length + free.length = c.circBuf.size := placed.length
  cases function with
  | push element =>
    by_cases full : queue.length = c.circBuf.size
    · obtain rfl : free = [] := List.length_eq_zero_iff.mp (by omega)
      cases queue with
      | nil => exact absurd (Nat.zero_lt_of_lt placed.tail) (by simp [← full])
      | cons first rest =>
        obtain ⟨circBuf, done, kept, same⟩ := push_full placed element
        refine ⟨_, congrArg (Option.map _) done, ?_⟩
        rw [queueCall, if_pos full]
        exact ⟨⟨_, kept⟩, same.size, same.destroyFunc, rfl, rfl⟩
    · cases free with
      | nil => exact absurd room full
      | cons other free =>
        obtain ⟨circBuf, done, kept, same⟩ := push_placed placed element
        refine ⟨_, congrArg (Option.map _) done, ?_⟩
        rw [queueCall, if_neg full]
        exact ⟨⟨_, kept⟩, same.size, same.destroyFunc, rfl, List.append_nil _⟩
  | popTail =>
    cases queue with
    | nil => exact absurd placed.count (Nat.ne_of_gt allowed)
    | cons first rest =>
      obtain ⟨circBuf, done, kept, same⟩ := pop_placed placed
      exact ⟨_, congrArg (Option.map _) done, ⟨_, kept⟩, same.size, same.destroyFunc, rfl, rfl⟩

/-- A buffer of one cell behind so many pushes: its tail is never the index of that cell. -/
private structure Single (t : τ) (destroyFunc : Bool) (c : Client τ α) (pushes : Nat) : Prop where
  holding : ∃ cell, Holding t c.circBuf.vector 0 [cell]
  size : c.circBuf.size = 1
  head : c.circBuf.headIndex = 0
  tail : c.circBuf.tailIndex = max 1 pushes
  count : c.circBuf.elementCount = min 1 pushes
  destroyFunc : c.circBuf.destroyFunc = destroyFunc

private theorem single_pops {pushes : Nat} (single : Single t destroyFunc c pushes) : call t c .popTail = none := by
  obtain ⟨cell, holding⟩ := single.holding
  have outside : [cell].length ≤ c.circBuf.tailIndex := single.tail ▸ Nat.le_max_left 1 pushes
  rw [call, circBufPopTail, get_outside holding outside]
  by_cases some : 0 < c.circBuf.elementCount
  · rw [assert_true some]
    rfl
  · rw [assert_false some]
    rfl

/-- What a further push does to the tail. -/
private theorem single_next {pushes : Nat} (again : 0 < pushes) :
    nextIndex 1 (max 1 pushes) = if pushes < intMax then some (pushes + 1) else none := by
  have behind : ¬ pushes + 1 = 1 := by omega
  rw [Nat.max_eq_right again, nextIndex, if_neg behind]
  by_cases small : pushes < intMax
  · rw [assert_true small, if_pos small]
    rfl
  · rw [assert_false small, if_neg small]
    rfl

private theorem single_pushes {pushes : Nat} (single : Single t destroyFunc c pushes) (element : Option α)
    (fits : pushes = 0 ∨ destroyFunc = false ∧ pushes < intMax) :
    ∃ circBuf, call t c (.push element) = some ⟨circBuf, c.returned, c.destroyed⟩ ∧
      Single t destroyFunc ⟨circBuf, c.returned, c.destroyed⟩ (pushes + 1) := by
  obtain ⟨⟨size, vector, headIndex, tailIndex, elementCount, df⟩, returned, destroyed⟩ := c
  obtain ⟨⟨cell, holding⟩, rfl, rfl, rfl, rfl, rfl⟩ := single
  obtain ⟨vector', set, kept⟩ := set_unlocked holding (Nat.one_pos : 0 < [cell].length) element
  refine ⟨⟨1, vector', 0, max 1 (pushes + 1), 1, df⟩, ?_, ⟨⟨element, kept⟩, rfl, rfl, rfl, by simp, rfl⟩⟩
  have write : nextIndex 1 0 = some 0 := rfl
  have fitting : 0 + 1 ≤ 1 := Nat.le_refl 1
  by_cases first : pushes = 0
  · subst first
    simp only [call, circBufPush, Nat.min_zero, if_neg Nat.zero_ne_one, write, set, assert_true fitting, Option.bind_eq_bind,
      Option.bind_some, Option.map_some, List.append_nil]
    rfl
  · obtain ⟨none, small⟩ := fits.resolve_left first
    dsimp only at none
    have again : 0 < pushes := Nat.pos_of_ne_zero first
    have one : min 1 pushes = 1 := Nat.min_eq_left again
    have more : max 1 (pushes + 1) = pushes + 1 := Nat.max_eq_right (by omega)
    simp only [call, circBufPush, discardTail, one, none, if_true, single_next again, if_pos small, write, set,
      assert_true fitting, Option.bind_eq_bind, Option.bind_some, Option.map_some, List.append_nil, more, Bool.false_eq_true,
      if_false, Nat.sub_self]

private theorem single_stuck {pushes : Nat} (single : Single t destroyFunc c pushes) (element : Option α)
    (large : ¬ (pushes = 0 ∨ destroyFunc = false ∧ pushes < intMax)) : call t c (.push element) = none := by
  obtain ⟨⟨size, vector, headIndex, tailIndex, elementCount, df⟩, returned, destroyed⟩ := c
  obtain ⟨⟨cell, holding⟩, rfl, rfl, rfl, rfl, rfl⟩ := single
  have again : 0 < pushes := Nat.pos_of_ne_zero fun first => large (.inl first)
  have one : min 1 pushes = 1 := Nat.min_eq_left again
  have outside : [cell].length ≤ max 1 pushes := Nat.le_max_left 1 pushes
  cases df with
  | true =>
    simp only [call, circBufPush, discardTail, one, if_true, get_outside holding outside, Option.bind_eq_bind, Option.map_none,
      Option.bind_none]
  | false =>
    have overflows : ¬ pushes < intMax := fun small => large (.inr ⟨rfl, small⟩)
    simp only [call, circBufPush, discardTail, one, if_true, single_next again, if_neg overflows, Option.bind_eq_bind,
      Option.map_none, Option.bind_none, Option.bind_some, Bool.false_eq_true, if_false]

/-- The queue of a buffer of one cell that can be pushed on. -/
private theorem single_queue {pushes : Nat} (count : q.queue.length = min 1 pushes)
    (fits : pushes = 0 ∨ destroyFunc = false ∧ pushes < intMax) (element : Option α) :
    (queueCall 1 destroyFunc q (.push element)).queue.length = min 1 (pushes + 1) ∧
      (queueCall 1 destroyFunc q (.push element)).returned = q.returned ∧
      (queueCall 1 destroyFunc q (.push element)).destroyed = q.destroyed := by
  by_cases first : pushes = 0
  · subst first
    have notFull : ¬ q.queue.length = 1 := by omega
    rw [queueCall, if_neg notFull]
    exact ⟨by simp [count], rfl, rfl⟩
  · obtain ⟨none, -⟩ := fits.resolve_left first
    have full : q.queue.length = 1 := by omega
    rw [queueCall, if_pos full]
    exact ⟨by simp [full], rfl, by simp [none]⟩

/-- What a buffer of one cell can do behind so many pushes: be pushed on once, or without a
    destroy function until its tail is beyond the range of `int`. -/
private theorem single_iff {pushes : Nat} (single : Single t destroyFunc c pushes) (count : q.queue.length = min 1 pushes)
    (returned : c.returned = q.returned) (destroyed : c.destroyed = q.destroyed) :
    (∃ c', run (call t) c calls = some c' ∧ Agrees 1 c' (calls.foldl (queueCall 1 destroyFunc) q)) ↔
      (∀ function ∈ calls, function ≠ .popTail) ∧
        (calls = [] ∨ pushes + calls.length ≤ 1 ∨ destroyFunc = false ∧ pushes + calls.length ≤ intMax) := by
  induction calls generalizing c q pushes with
  | nil =>
    refine ⟨fun _ => ⟨nofun, .inl rfl⟩, fun _ => ⟨c, rfl, ?_, ?_, returned, destroyed⟩⟩
    · exact single.count.trans count.symm
    · exact single.count.trans_le (Nat.min_le_left 1 pushes)
  | cons function rest ih =>
    cases function with
    | popTail =>
      refine ⟨?_, fun ⟨pushing, _⟩ => absurd rfl (pushing .popTail List.mem_cons_self)⟩
      rintro ⟨c', ran, -⟩
      rw [run, single_pops single] at ran
      cases ran
    | push element =>
      by_cases fits : pushes = 0 ∨ destroyFunc = false ∧ pushes < intMax
      · obtain ⟨circBuf, done, next⟩ := single_pushes single element fits
        obtain ⟨counted, same⟩ := single_queue count fits element
        have later := ih next counted (by rw [same.1, returned]) (by rw [same.2, destroyed])
        rw [run, done, Option.bind_some, List.foldl_cons, later]
        simp only [List.forall_mem_cons, ne_eq, reduceCtorEq, not_false_eq_true, true_and, List.length_cons]
        refine and_congr_right fun _ => ⟨?_, ?_⟩
        · rintro (rfl | short | ⟨none, short⟩)
          · right
            rcases fits with first | ⟨none, small⟩
            · exact .inl (by simp [first])
            · exact .inr ⟨none, small⟩
          · exact .inr (.inl (by omega))
          · exact .inr (.inr ⟨none, by omega⟩)
        · rintro (absent | short | ⟨none, short⟩)
          · cases absent
          · exact .inr (.inl (by omega))
          · exact .inr (.inr ⟨none, by omega⟩)
      · constructor
        · rintro ⟨c', ran, -⟩
          rw [run, single_stuck single element fits] at ran
          cases ran
        · rintro ⟨-, absent | short | ⟨none, short⟩⟩
          · cases absent
          · rw [List.length_cons] at short
            exact absurd (.inl (by omega)) fits
          · rw [List.length_cons] at short
            exact absurd (.inr ⟨none, by omega⟩) fits

/-- A circular buffer is a queue that keeps its last pointers just when it has more than one
    cell, or is only pushed on: once, or without a destroy function as often as an `int` counts. -/
theorem overwriting_fifo_iff (t thread : τ) {size : Nat} (positive : 0 < size) (small : size ≤ intMax) (destroyFunc : Bool)
    (calls : List (Call α))
    (allowed : ∀ circBuf, circBufCreate t thread size destroyFunc = some circBuf →
      Guarded (call t) Allowed ⟨circBuf, [], []⟩ calls) :
    (∃ circBuf c, circBufCreate t thread size destroyFunc = some circBuf ∧ run (call t) ⟨circBuf, [], []⟩ calls = some c ∧
      Agrees size c (calls.foldl (queueCall size destroyFunc) ⟨[], [], []⟩)) ↔
      1 < size ∨ (∀ function ∈ calls, function ≠ .popTail) ∧
        (calls.length ≤ 1 ∨ destroyFunc = false ∧ calls.length ≤ intMax) := by
  obtain ⟨vector, created, holding⟩ := circBufCreate_holding (α := α) t thread small destroyFunc
  have permitted := allowed _ created
  have only : (∃ circBuf c, circBufCreate t thread size destroyFunc = some circBuf ∧
      run (call t) ⟨circBuf, [], []⟩ calls = some c ∧ Agrees size c (calls.foldl (queueCall size destroyFunc) ⟨[], [], []⟩)) ↔
      ∃ c, run (call t) ⟨⟨size, vector, 0, 1, 0, destroyFunc⟩, [], []⟩ calls = some c ∧
        Agrees size c (calls.foldl (queueCall size destroyFunc) ⟨[], [], []⟩) := by
    rw [created]
    simp only [Option.some.injEq, exists_and_left, exists_eq_left']
  rw [only]
  by_cases wide : 1 < size
  · refine ⟨fun _ => .inl wide, fun _ => ?_⟩
    have start : Inv t size destroyFunc (⟨⟨size, vector, 0, 1, 0, destroyFunc⟩, [], []⟩ : Client τ α) ⟨[], [], []⟩ :=
      ⟨⟨_, create_placed holding wide small⟩, rfl, rfl, rfl, rfl⟩
    have simulated : (∃ c, run (call t) ⟨⟨size, vector, 0, 1, 0, destroyFunc⟩, [], []⟩ calls = some c ∧
        Agrees size c (calls.foldl (queueCall size destroyFunc) ⟨[], [], []⟩)) ↔
        Guarded (call t) Allowed ⟨⟨size, vector, 0, 1, 0, destroyFunc⟩, [], []⟩ calls := by
      refine simulates_iff_guarded (R := Inv t size destroyFunc) ?_ ?_ (fun _ _ => Inv.agrees) start permitted
      · exact fun _ _ _ inv allowed _ => call_inv inv allowed
      · exact fun _ _ _ _ allowed large => absurd allowed large
    exact simulated.mpr permitted
  · obtain rfl : size = 1 := by omega
    have start : Single t destroyFunc (⟨⟨1, vector, 0, 1, 0, destroyFunc⟩, [], []⟩ : Client τ α) 0 :=
      ⟨⟨none, holding⟩, rfl, rfl, rfl, rfl, rfl⟩
    rw [single_iff (q := ⟨[], [], []⟩) start rfl rfl rfl, Nat.zero_add, or_iff_right (a := 1 < 1) (Nat.lt_irrefl 1)]
    refine and_congr_right fun _ => ⟨?_, .inr⟩
    rintro (rfl | short)
    · exact .inl (Nat.zero_le 1)
    · exact short

/-- A buffer of two cells that is pushed on when it is full. -/
theorem overwriting_fifo_iff_sample :
    (∃ circBuf c, circBufCreate () () 2 true = some circBuf ∧
      run (call ()) ⟨circBuf, [], []⟩ [.push (some 'a'), .push (some 'b'), .push (some 'c'), .popTail] = some c ∧
      Agrees 2 c ([.push (some 'a'), .push (some 'b'), .push (some 'c'), .popTail].foldl (queueCall 2 true) ⟨[], [], []⟩)) ↔
      1 < 2 ∨ (∀ function ∈ [Call.push (some 'a'), .push (some 'b'), .push (some 'c'), .popTail], function ≠ .popTail) ∧
        ([Call.push (some 'a'), .push (some 'b'), .push (some 'c'), .popTail].length ≤ 1 ∨
          true = false ∧ [Call.push (some 'a'), .push (some 'b'), .push (some 'c'), .popTail].length ≤ intMax) := by
  refine overwriting_fifo_iff () () (by decide) (by decide) true _ ?_
  rintro circBuf ⟨⟩
  exact (checkedRun_some rfl).1

/-- A push and a pop of a buffer of one cell. -/
theorem single_cell_fails :
    (∀ circBuf, circBufCreate () () 1 false = some circBuf →
      Guarded (call ()) Allowed ⟨circBuf, [], []⟩ [.push (some 'a'), .popTail]) ∧
    ¬ ∃ circBuf c, circBufCreate () () 1 false = some circBuf ∧
      run (call ()) ⟨circBuf, [], []⟩ [.push (some 'a'), .popTail] = some c ∧
      Agrees 1 c ([.push (some 'a'), .popTail].foldl (queueCall 1 false) ⟨[], [], []⟩) := by
  refine ⟨?_, ?_⟩
  · rintro circBuf ⟨⟩
    refine ⟨trivial, ?_⟩
    rintro c ⟨⟩
    exact ⟨Nat.one_pos, nofun⟩
  · rintro ⟨circBuf, c, ⟨⟩, ran, -⟩
    cases ran

end

end VoxiUtil.CircularBufferFifo
