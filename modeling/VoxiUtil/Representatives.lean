import Mathlib.Data.Set.Finite.Basic
import Mathlib.Data.Setoid.Basic

/-!
Finite sets that hold at most one member of each class of an equivalence: what a
table of records with a user supplied comparison is meant to be. The members are
kept as they were put in, so a member found for a key is the very one inserted.
-/
namespace VoxiUtil.Representatives
universe u
variable {α : Type u} {r : Setoid α}
attribute [local instance] Classical.propDecidable

/-- A finite set of pairwise unrelated members. -/
@[ext] structure Reps (r : Setoid α) where
  carrier : Set α
  finite : carrier.Finite
  separate : ∀ x ∈ carrier, ∀ y ∈ carrier, r x y → x = y

namespace Reps

/-- Some member stands for the class of `d`. -/
def Holds (S : Reps r) (d : α) : Prop := ∃ x ∈ S.carrier, r x d

def empty (r : Setoid α) : Reps r := ⟨∅, Set.finite_empty, by simp⟩

/-- `d` joins unless its class is held already. -/
noncomputable def add (S : Reps r) (d : α) : Reps r :=
  if held : S.Holds d then S else
    ⟨insert d S.carrier, S.finite.insert d, by
      rintro x (rfl | xIn) y (rfl | yIn) related
      · rfl
      · exact absurd ⟨y, yIn, r.symm related⟩ held
      · exact absurd ⟨x, xIn, related⟩ held
      · exact S.separate x xIn y yIn related⟩

/-- The member that stands for the class of `d` leaves. -/
def remove (S : Reps r) (d : α) : Reps r :=
  ⟨{x ∈ S.carrier | ¬ r x d}, S.finite.subset (fun _ h => h.1),
    fun x xIn y yIn related => S.separate x xIn.1 y yIn.1 related⟩

/-- The member that stands for the class of `d`. -/
noncomputable def find (S : Reps r) (d : α) : Option α :=
  if held : S.Holds d then some (Classical.choose held) else none

theorem add_held {S : Reps r} {d : α} (held : S.Holds d) : S.add d = S := by simp [add, held]

theorem mem_add_new {S : Reps r} {d : α} (unheld : ¬ S.Holds d) (x : α) :
    x ∈ (S.add d).carrier ↔ x = d ∨ x ∈ S.carrier := by simp [add, unheld]

theorem mem_remove {S : Reps r} {d x : α} : x ∈ (S.remove d).carrier ↔ x ∈ S.carrier ∧ ¬ r x d := Iff.rfl

theorem remove_unheld {S : Reps r} {d : α} (unheld : ¬ S.Holds d) : S.remove d = S := by
  ext x
  rw [mem_remove]
  exact ⟨fun h => h.1, fun xIn => ⟨xIn, fun related => unheld ⟨x, xIn, related⟩⟩⟩

/-- What is found is a member of the class, and the only one. -/
theorem find_eq_some_iff {S : Reps r} {d x : α} : S.find d = some x ↔ x ∈ S.carrier ∧ r x d := by
  unfold find
  split
  · rename_i held
    have chosen := Classical.choose_spec held
    constructor
    · intro same; cases same; exact chosen
    · rintro ⟨xIn, related⟩
      rw [S.separate _ chosen.1 x xIn (r.trans chosen.2 (r.symm related))]
  · rename_i unheld
    exact ⟨nofun, fun member => absurd ⟨x, member⟩ unheld⟩

theorem find_eq_none_iff {S : Reps r} {d : α} : S.find d = none ↔ ¬ S.Holds d := by
  unfold find
  split <;> simp_all

end Reps
end VoxiUtil.Representatives
