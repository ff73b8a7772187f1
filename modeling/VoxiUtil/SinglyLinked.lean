import Mathlib.Data.List.Basic
import Mathlib.Logic.Function.Basic

/-!
Singly linked lists in a heap, given by what `newer` holds at each node.
-/
namespace VoxiUtil.SinglyLinked
universe u
variable {κ : Type u}

/-- The nodes from a pointer to the null pointer. -/
def Chain (newer : κ → Option κ) (start : Option κ) : List κ → Prop
  | [] => start = none
  | c :: rest => start = some c ∧ Chain newer (newer c) rest

section
variable {newer newer' : κ → Option κ} {start : Option κ} {nodes : List κ}

/-- A chain depends on the pointers of its own nodes only. -/
theorem chain_frame (same : ∀ c ∈ nodes, newer' c = newer c) (chain : Chain newer start nodes) : Chain newer' start nodes := by
  induction nodes generalizing start with
  | nil => exact chain
  | cons c rest ih =>
    refine ⟨chain.1, ?_⟩
    rw [same c List.mem_cons_self]
    exact ih (fun d member => same d (List.mem_cons_of_mem c member)) chain.2

theorem chain_start (chain : Chain newer start nodes) : start = nodes.head? := by
  cases nodes with
  | nil => exact chain
  | cons c rest => exact chain.1

/-- A new node behind the last one. -/
theorem chain_snoc [DecidableEq κ] {last element : κ} (chain : Chain newer start nodes) (distinct : nodes.Nodup)
    (ends : nodes.getLast? = some last) (outside : element ∉ nodes) (null : newer element = none) :
    Chain (Function.update newer last (some element)) start (nodes ++ [element]) := by
  induction nodes generalizing start with
  | nil => cases ends
  | cons c rest ih =>
    rw [List.nodup_cons] at distinct
    rw [List.mem_cons, not_or] at outside
    refine ⟨chain.1, ?_⟩
    cases rest with
    | nil =>
      obtain rfl : c = last := Option.some.inj ends
      rw [Function.update_self]
      exact ⟨rfl, (Function.update_of_ne outside.1 _ _).trans null⟩
    | cons d more =>
      have other : c ≠ last := by
        rintro rfl
        exact distinct.1 (List.mem_of_getLast? (by rw [List.getLast?_cons_cons] at ends; exact ends))
      rw [Function.update_of_ne other]
      exact ih chain.2 distinct.2 (by rw [List.getLast?_cons_cons] at ends; exact ends) outside.2

end

end VoxiUtil.SinglyLinked
