import Mathlib.Data.List.Basic
import Mathlib.Data.List.Rotate
import Mathlib.Data.Nat.ModEq

/-!
Elements in a ring of cells: a run of them from a head on, around the end of the
ring, and what is written behind it.
-/
namespace VoxiUtil.Ring
universe u
variable {α : Type u}

/-- The elements from `start` on, without going around. -/
def slice (buffer : Nat → α) (start length : Nat) : List α := (List.range length).map fun i => buffer (start + i)

/-- The elements from `head` on, in a ring of `size` cells. -/
def held (buffer : Nat → α) (size head length : Nat) : List α :=
  (List.range length).map fun i => buffer ((head + i) % size)

/-- The cells with elements written from `start` on. -/
def store (buffer : Nat → α) (start : Nat) (elements : List α) : Nat → α :=
  fun index => if inside : start ≤ index ∧ index < start + elements.length then elements[index - start] else buffer index

section
variable {buffer : Nat → α} {size head start length : Nat} {elements : List α}

@[simp] theorem held_length : (held buffer size head length).length = length := by
  simp [held]

@[simp] theorem slice_length : (slice buffer start length).length = length := by
  simp [slice]

@[simp] theorem held_zero : held buffer size head 0 = [] := rfl

/-- A run goes on behind its first elements. -/
theorem held_add (buffer : Nat → α) (size head m n : Nat) :
    held buffer size head (m + n) = held buffer size head m ++ held buffer size (head + m) n := by
  simp only [held, List.range_add, List.map_append, List.map_map, Function.comp_def, Nat.add_assoc]

/-- A head beyond the end stands for the one it comes to. -/
theorem held_mod (buffer : Nat → α) (size head length : Nat) :
    held buffer size (head % size) length = held buffer size head length := by
  unfold held
  apply List.map_congr_left
  intro i _
  rw [Nat.mod_add_mod]

/-- A run that ends before the end of the ring. -/
theorem held_slice (fits : start + length ≤ size) : held buffer size start length = slice buffer start length := by
  unfold held slice
  apply List.map_congr_left
  intro i member
  have small := List.mem_range.mp member
  rw [Nat.mod_eq_of_lt (by omega)]

/-- Written elements are read back. -/
theorem slice_store (buffer : Nat → α) (start : Nat) (elements : List α) :
    slice (store buffer start elements) start elements.length = elements := by
  unfold slice store
  apply List.ext_getElem
  · simp
  · intro i _ small
    have inside : start ≤ start + i ∧ start + i < start + elements.length := by omega
    simp only [List.getElem_map, List.getElem_range, inside, and_self, dif_pos, Nat.add_sub_cancel_left]

/-- Cells that a store leaves alone. -/
theorem slice_store_other {first count : Nat} (apart : first + count ≤ start ∨ start + elements.length ≤ first) :
    slice (store buffer start elements) first count = slice buffer first count := by
  unfold slice store
  apply List.map_congr_left
  intro j member
  have small := List.mem_range.mp member
  apply dif_neg
  omega

/-- Cells one behind another. -/
theorem slice_add (buffer : Nat → α) (start m n : Nat) :
    slice buffer start (m + n) = slice buffer start m ++ slice buffer (start + m) n := by
  simp only [slice, List.range_add, List.map_append, List.map_map, Function.comp_def, Nat.add_assoc]

/-- Cells behind a run that does not fill the ring are none of its own. -/
theorem held_store (count : Nat) (room : count + elements.length ≤ size) (behind : start = (head + count) % size)
    (fits : start + elements.length ≤ size) :
    held (store buffer start elements) size head count = held buffer size head count := by
  unfold held store
  apply List.map_congr_left
  intro i member
  have small := List.mem_range.mp member
  apply dif_neg
  rintro ⟨low, high⟩
  -- otherwise cell `i` of the run is cell `count + j` too, with both less than a round away
  obtain ⟨j, place⟩ : ∃ j, (head + i) % size = start + j := ⟨(head + i) % size - start, by omega⟩
  have around : (head + (count + j)) % size = (head + i) % size := by
    rw [place, ← Nat.add_assoc, ← Nat.mod_add_mod, ← behind, Nat.mod_eq_of_lt (by omega)]
  have same : count + j ≡ i [MOD size] := Nat.ModEq.add_left_cancel' head around
  rw [Nat.ModEq, Nat.mod_eq_of_lt (by omega), Nat.mod_eq_of_lt (by omega)] at same
  omega

/-- Elements written behind a run lengthen it. -/
theorem held_written (count : Nat) (room : count + elements.length ≤ size) (behind : start = (head + count) % size)
    (fits : start + elements.length ≤ size) :
    held (store buffer start elements) size head (count + elements.length) = held buffer size head count ++ elements := by
  rw [held_add, held_store count room behind fits, ← held_mod _ size (head + count), ← behind, held_slice fits, slice_store]

/-- A run comes back to its head only when it fills the ring. -/
theorem around_iff {count : Nat} (inside : head < size) (positive : 0 < count) (room : count ≤ size) :
    head = (head + count) % size ↔ count = size := by
  by_cases before : head + count < size
  · rw [Nat.mod_eq_of_lt before]
    omega
  · by_cases whole : count = size
    · rw [whole, Nat.add_mod_right, Nat.mod_eq_of_lt inside]
      simp
    · rw [Nat.mod_eq_sub_mod (by omega), Nat.mod_eq_of_lt (by omega)]
      omega

/-- The elements up to the end of the ring are the first of a run. -/
theorem held_front {count taken : Nat} (part : taken ≤ count) (fits : head + taken ≤ size) :
    held buffer size head count = slice buffer head taken ++ held buffer size ((head + taken) % size) (count - taken) := by
  have parts : count = taken + (count - taken) := by omega
  conv_lhs => rw [parts]
  rw [held_add, held_slice fits, held_mod]

/-- Cells of a ring are the same just when they are so many behind its head, up to rounds. -/
theorem around_eq_iff {i j : Nat} (first : i < size) (second : j < size) : (head + i) % size = (head + j) % size ↔ i = j := by
  refine ⟨fun same => ?_, fun same => by rw [same]⟩
  have equal : i ≡ j [MOD size] := Nat.ModEq.add_left_cancel' head same
  rwa [Nat.ModEq, Nat.mod_eq_of_lt first, Nat.mod_eq_of_lt second] at equal

/-- The length of a run from its head and the place behind it, when it does not fill the ring. -/
theorem around_distance {count : Nat} (inside : head < size) (room : count < size) :
    ((head + count) % size + size - head) % size = count := by
  by_cases before : head + count < size
  · have back : head + count + size - head = count + size := by omega
    rw [Nat.mod_eq_of_lt before, back, Nat.add_mod_right, Nat.mod_eq_of_lt room]
  · have once : (head + count) % size = head + count - size := by
      rw [Nat.mod_eq_sub_mod (by omega), Nat.mod_eq_of_lt (by omega)]
    have back : head + count - size + size - head = count := by omega
    rw [once, back, Nat.mod_eq_of_lt room]

/-- A cell written behind a run that does not fill the ring. -/
theorem held_update (head : Nat) (buffer : Nat → α) {count : Nat} (room : count < size) (element : α) :
    held (Function.update buffer ((head + count) % size) element) size head count = held buffer size head count := by
  unfold held
  apply List.map_congr_left
  intro i member
  have small := List.mem_range.mp member
  apply Function.update_of_ne
  intro same
  have equal := (around_eq_iff (by omega) room).mp same
  omega

theorem held_succ (buffer : Nat → α) (size head count : Nat) :
    held buffer size head (count + 1) = held buffer size head count ++ [buffer ((head + count) % size)] := by
  rw [held_add]
  rfl

/-- The first element of a run, and the others from the next head on. -/
theorem held_first (buffer : Nat → α) (inside : head < size) (count : Nat) :
    held buffer size head (count + 1) = buffer head :: held buffer size ((head + 1) % size) count := by
  have front : (head + 0) % size = head := Nat.mod_eq_of_lt inside
  rw [Nat.add_comm, held_add, held_mod, held_succ, held_zero, front]
  rfl

/-- A cell written, in the ring as it is seen from its head. -/
theorem rotate_set {cells : List α} {i : Nat} (inside : i < cells.length) (head : Nat) (element : α) :
    (cells.set ((head + i) % cells.length) element).rotate head = (cells.rotate head).set i element := by
  apply List.ext_getElem
  · simp
  · intro j small _
    rw [List.length_rotate, List.length_set] at small
    rw [List.getElem_rotate, List.getElem_set, List.getElem_set, List.getElem_rotate]
    simp only [List.length_set, Nat.add_comm j head, around_eq_iff inside small]

/-- The ring from the next head on. -/
theorem rotate_next {cells : List α} {first : α} {rest : List α} (seen : cells.rotate head = first :: rest) :
    cells.rotate ((head + 1) % cells.length) = rest ++ [first] := by
  rw [List.rotate_mod, ← List.rotate_rotate, seen, List.rotate_cons_succ, List.rotate_zero]

/-- The cell at the head. -/
theorem rotate_head {cells : List α} {first : α} {rest : List α} (inside : head < cells.length)
    (seen : cells.rotate head = first :: rest) : cells[head] = first := by
  have found := List.head?_rotate inside
  rw [seen, List.getElem?_eq_getElem inside] at found
  exact (Option.some.inj found).symm

end

end VoxiUtil.Ring
