import VoxiUtil.Runs
import VoxiUtil.WordMap

/-!
Adds and deletes on a word map with both tables. A delete looks for its entry in one
table and cleans the other one by the entry's key there, where another entry may be.
-/
namespace VoxiUtil.WordMapDeletes
open VoxiUtil.CString VoxiUtil.Hash VoxiUtil.HashSet VoxiUtil.Runs VoxiUtil.WordMap

inductive WordMapOp
  | add (name : Text) (number : Int32)
  | deleteByName (name : Text)
  | deleteByNumber (number : Int32)

def step (map : SWordMap) : WordMapOp → Option SWordMap
  | .add name number => some (wordMapAdd map name number)
  | .deleteByName name => wordMapDeleteByName map name
  | .deleteByNumber number => wordMapDeleteByNumber map number

/-- The entry that a delete finds under its key. -/
def foundBy (map : SWordMap) : WordMapOp → Option Entry
  | .add _ _ => none
  | .deleteByName name => hashFind map.byName (nameTemplate name)
  | .deleteByNumber number => hashFind map.byNumber (numberTemplate number)

/-- What the other table of a delete holds under the key of the entry. -/
def otherBy (map : SWordMap) (entry : Entry) : WordMapOp → Option Entry
  | .add _ _ => none
  | .deleteByName _ => hashFind map.byNumber entry
  | .deleteByNumber _ => hashFind map.byName entry

/-- A delete is called with a key that is found. -/
def Finds (map : SWordMap) : WordMapOp → Prop
  | .add _ _ => True
  | op => (foundBy map op).isSome

/-- The other table has an entry under the key of the found one. -/
def KeyShared (map : SWordMap) (op : WordMapOp) : Prop :=
  ∀ entry, foundBy map op = some entry → (otherBy map entry op).isSome

/-- The entry is in no table any more, and no other entry has left a table, so the
    answers that were other entries are the same. -/
structure RemovesOne (map after : SWordMap) (entry : Entry) : Prop where
  gone : entry ∉ entries after.byName ∧ entry ∉ entries after.byNumber
  keptByName : ∀ other ∈ entries map.byName, other.address ≠ entry.address → other ∈ entries after.byName
  keptByNumber : ∀ other ∈ entries map.byNumber, other.address ≠ entry.address → other ∈ entries after.byNumber
  answersByName : ∀ name other, hashFind map.byName (nameTemplate name) = some other →
    other.address ≠ entry.address → wordMapFindByName after name = wordMapFindByName map name
  answersByNumber : ∀ number other, hashFind map.byNumber (numberTemplate number) = some other →
    other.address ≠ entry.address → wordMapFindByNumber after number = wordMapFindByNumber map number

/-- Both tables stand for sets of entries, and an entry is known by its block. -/
structure Inv (map : SWordMap) : Prop where
  type : map.type = .byNameNumber
  names : Stands (lawfulName map.size map.sized) map.byName
  numbers : Stands (lawfulNumber map.size map.sized) map.byNumber
  allocated : ∀ e, e ∈ entries map.byName ∨ e ∈ entries map.byNumber → e.address < map.allocated
  known : ∀ e f, e ∈ entries map.byName ∨ e ∈ entries map.byNumber →
    f ∈ entries map.byName ∨ f ∈ entries map.byNumber → e.address = f.address → e = f

section
variable {fs : Funcs Entry} {lawful : Lawful fs} {ht : Hasht fs} {data e : Entry}

private theorem deleteOne_held (stands : Stands lawful ht) (held : hashFind ht data = some e) :
    ∃ after, deleteOne ht data = some after ∧ Stands lawful after ∧ ∀ x, x ∈ entries after ↔ x ∈ entries ht ∧ x ≠ e := by
  obtain ⟨after, ran, kept, rest⟩ := hashDelete_held stands held
  exact ⟨after, by rw [deleteOne, ran, Option.bind_some, if_pos rfl], kept, rest⟩

private theorem deleteOne_absent (stands : Stands lawful ht) (unheld : hashFind ht data = none) :
    deleteOne ht data = none := by
  rw [deleteOne, hashDelete_absent stands unheld]
  rfl

/-- `HashAdd` keeps the entries and adds no other one than its own. -/
private theorem hashAdd_entries (stands : Stands lawful ht) (data : Entry) (newInfo : Nat) :
    Stands lawful (hashAdd ht data (some newInfo)).1 ∧
      ∀ x ∈ entries (hashAdd ht data (some newInfo)).1, x = data ∨ x ∈ entries ht := by
  cases found : hashFind ht data with
  | none =>
    obtain ⟨after, added, kept, all⟩ := hashAdd_new stands found newInfo
    rw [added]
    exact ⟨kept, fun x member => List.mem_cons.mp (all.mem_iff.mp member)⟩
  | some e =>
    rw [hashAdd_held stands found newInfo]
    exact ⟨stands, fun _ => .inr⟩

/-- An entry that is found is found by its own key too. -/
private theorem find_self (stands : Stands lawful ht) {key : Entry} (found : hashFind ht key = some e) :
    hashFind ht e = some e :=
  (hashFind_iff stands).mpr ⟨((hashFind_iff stands).mp found).1, lawful.refl e⟩

end

section
variable {map after : SWordMap} {op : WordMapOp} {entry other : Entry}

/-- Which of the two entries of a delete leaves the table of names: the found one when
    the delete goes by name. -/
private def fromNames (entry other : Entry) : WordMapOp → Entry
  | .deleteByName _ => entry
  | _ => other

private def fromNumbers (entry other : Entry) : WordMapOp → Entry
  | .deleteByName _ => other
  | _ => entry

private theorem hasName_of (inv : Inv map) : map.type.hasName = true := by
  rw [inv.type]
  rfl

private theorem hasNumber_of (inv : Inv map) : map.type.hasNumber = true := by
  rw [inv.type]
  rfl

/-- A delete by name that finds its entry takes it out of both tables, the names first. -/
private theorem deleteByName_found (inv : Inv map) {name : Text} (found : foundBy map (.deleteByName name) = some entry) :
    step map (.deleteByName name) = (deleteOne map.byName entry).bind fun byName =>
      (deleteOne map.byNumber entry).map fun byNumber => { map with byName := byName, byNumber := byNumber } := by
  change hashFind map.byName (nameTemplate name) = some entry at found
  rw [step, wordMapDeleteByName, if_pos (hasName_of inv), found, Option.bind_some]
  simp only [hasNumber_of inv, if_true]

/-- A delete by number takes it out of the numbers first. -/
private theorem deleteByNumber_found (inv : Inv map) {number : Int32}
    (found : foundBy map (.deleteByNumber number) = some entry) :
    step map (.deleteByNumber number) = (deleteOne map.byNumber entry).bind fun byNumber =>
      (deleteOne map.byName entry).map fun byName => { map with byNumber := byNumber, byName := byName } := by
  change hashFind map.byNumber (numberTemplate number) = some entry at found
  rw [step, wordMapDeleteByNumber, if_pos (hasNumber_of inv), found, Option.bind_some]
  simp only [hasName_of inv, if_true]

/-- A delete whose other table holds `other` under the key of the found entry: that one
    leaves the other table. -/
private theorem delete_both (inv : Inv map) (found : foundBy map op = some entry) (under : otherBy map entry op = some other) :
    ∃ byName byNumber, step map op = some { map with byName := byName, byNumber := byNumber } ∧
      Stands (lawfulName map.size map.sized) byName ∧ Stands (lawfulNumber map.size map.sized) byNumber ∧
      (∀ x, x ∈ entries byName ↔ x ∈ entries map.byName ∧ x ≠ fromNames entry other op) ∧
      ∀ x, x ∈ entries byNumber ↔ x ∈ entries map.byNumber ∧ x ≠ fromNumbers entry other op := by
  cases op with
  | add name number => cases found
  | deleteByName name =>
    obtain ⟨byName, deleted, names, restByName⟩ := deleteOne_held inv.names (find_self inv.names found)
    obtain ⟨byNumber, deletedToo, numbers, restByNumber⟩ := deleteOne_held inv.numbers under
    refine ⟨byName, byNumber, ?_, names, numbers, restByName, restByNumber⟩
    rw [deleteByName_found inv found, deleted, Option.bind_some, deletedToo, Option.map_some]
  | deleteByNumber number =>
    obtain ⟨byNumber, deleted, numbers, restByNumber⟩ := deleteOne_held inv.numbers (find_self inv.numbers found)
    obtain ⟨byName, deletedToo, names, restByName⟩ := deleteOne_held inv.names under
    refine ⟨byName, byNumber, ?_, names, numbers, restByName, restByNumber⟩
    rw [deleteByNumber_found inv found, deleted, Option.bind_some, deletedToo, Option.map_some]

/-- A delete fails its second assertion when the other table has no entry under the key. -/
private theorem delete_fails (inv : Inv map) (found : foundBy map op = some entry) (under : otherBy map entry op = none) :
    step map op = none := by
  cases op with
  | add name number => cases found
  | deleteByName name =>
    obtain ⟨byName, deleted, _⟩ := deleteOne_held inv.names (find_self inv.names found)
    rw [deleteByName_found inv found, deleted, Option.bind_some, deleteOne_absent inv.numbers under, Option.map_none]
  | deleteByNumber number =>
    obtain ⟨byNumber, deleted, _⟩ := deleteOne_held inv.numbers (find_self inv.numbers found)
    rw [deleteByNumber_found inv found, deleted, Option.bind_some, deleteOne_absent inv.names under, Option.map_none]

/-- A delete whose key is not found fails its first assertion. -/
private theorem delete_unfound (missing : foundBy map op = none) (ran : step map op = some after) :
    ∃ name number, op = .add name number := by
  cases op with
  | add name number => exact ⟨name, number, rfl⟩
  | deleteByName name =>
    change hashFind map.byName (nameTemplate name) = none at missing
    simp [step, wordMapDeleteByName, missing] at ran
  | deleteByNumber number =>
    change hashFind map.byNumber (numberTemplate number) = none at missing
    simp [step, wordMapDeleteByNumber, missing] at ran

/-- What a delete that returns has found in both tables. -/
private theorem delete_cases (inv : Inv map) (found : foundBy map op = some entry) (ran : step map op = some after) :
    ∃ other, otherBy map entry op = some other := by
  cases under : otherBy map entry op with
  | none =>
    rw [delete_fails inv found under] at ran
    cases ran
  | some other => exact ⟨other, rfl⟩

theorem step_inv (inv : Inv map) (ran : step map op = some after) : Inv after := by
  cases found : foundBy map op with
  | some entry =>
    obtain ⟨other, under⟩ := delete_cases inv found ran
    obtain ⟨byName, byNumber, result, names, numbers, restByName, restByNumber⟩ := delete_both inv found under
    cases result.symm.trans ran
    have older : ∀ e, e ∈ entries byName ∨ e ∈ entries byNumber → e ∈ entries map.byName ∨ e ∈ entries map.byNumber :=
      fun e => Or.imp (fun member => ((restByName e).mp member).1) fun member => ((restByNumber e).mp member).1
    exact ⟨inv.type, names, numbers, fun e member => inv.allocated e (older e member),
      fun e f first second => inv.known e f (older e first) (older f second)⟩
  | none =>
    obtain ⟨name, number, rfl⟩ := delete_unfound found ran
    cases ran
    obtain ⟨names, newNames⟩ := hashAdd_entries inv.names ⟨map.allocated, name, number.toUInt32⟩ map.allocated
    obtain ⟨numbers, newNumbers⟩ := hashAdd_entries inv.numbers ⟨map.allocated, name, number.toUInt32⟩ map.allocated
    unfold wordMapAdd
    simp only [hasName_of inv, hasNumber_of inv, if_true]
    have both : ∀ e, e ∈ entries (hashAdd map.byName ⟨map.allocated, name, number.toUInt32⟩ (some map.allocated)).1 ∨
        e ∈ entries (hashAdd map.byNumber ⟨map.allocated, name, number.toUInt32⟩ (some map.allocated)).1 →
        e = ⟨map.allocated, name, number.toUInt32⟩ ∨ e ∈ entries map.byName ∨ e ∈ entries map.byNumber := by
      rintro e (member | member)
      · exact (newNames e member).imp_right .inl
      · exact (newNumbers e member).imp_right .inr
    refine ⟨inv.type, names, numbers, fun e member => ?_, fun e f first second same => ?_⟩
    · rcases both e member with rfl | old
      · exact Nat.lt_succ_self _
      · exact Nat.lt_succ_of_lt (inv.allocated e old)
    · rcases both e first with rfl | old <;> rcases both f second with rfl | older
      · rfl
      · exact absurd same.symm (Nat.ne_of_lt (inv.allocated f older))
      · exact absurd same (Nat.ne_of_lt (inv.allocated e old))
      · exact inv.known e f old older same

theorem create_inv {name : Text} {size : Int32} (created : wordMapCreate2 name .byNameNumber size = some map) : Inv map := by
  obtain ⟨sized, same⟩ := Option.dite_none_right_eq_some.mp created
  cases same
  refine ⟨rfl, create_stands _, create_stands _, ?_, ?_⟩
  · simp [entries_create]
  · simp [entries_create]

end

/-- On a map with both tables, no assertion of a delete fails in a run just when each
    delete finds an entry in the other table too. -/
theorem deletes_succeed_iff {name : Text} {size : Int32} {map : SWordMap} {ops : List WordMapOp}
    (created : wordMapCreate2 name .byNameNumber size = some map) (finds : Guarded step Finds map ops) :
    (run step map ops).isSome ↔ Guarded step KeyShared map ops := by
  refine total_iff_guarded (fun _ _ _ inv ran => step_inv inv ran) ?_ (create_inv created) finds
  intro m op inv finds
  cases found : foundBy m op with
  | none =>
    have adds : ∃ name number, op = .add name number := by
      cases op with
      | add name number => exact ⟨name, number, rfl⟩
      | deleteByName name => simp [Finds, found] at finds
      | deleteByNumber number => simp [Finds, found] at finds
    obtain ⟨name, number, rfl⟩ := adds
    simp [step, KeyShared, foundBy]
  | some entry =>
    simp only [KeyShared, found, Option.some.injEq, forall_eq']
    cases under : otherBy m entry op with
    | none => simp [delete_fails inv found under]
    | some other =>
      obtain ⟨byName, byNumber, result, _⟩ := delete_both inv found under
      simp [result]

/-- Deletes by either key of maps whose names and numbers are all different. -/
theorem deletes_succeed_iff_distinct : ∃ map, wordMapCreate2 (lit "m") .byNameNumber 2 = some map ∧
    ((run step map [.add (lit "a") 1, .add (lit "b") 2, .deleteByNumber 1, .deleteByName (lit "b")]).isSome ↔
      Guarded step KeyShared map [.add (lit "a") 1, .add (lit "b") 2, .deleteByNumber 1, .deleteByName (lit "b")]) := by
  have created : wordMapCreate2 (lit "m") .byNameNumber 2 = some _ := rfl
  refine ⟨_, created, deletes_succeed_iff created ?_⟩
  refine guarded_step trivial rfl ?_
  refine guarded_step trivial rfl ?_
  refine guarded_step rfl rfl ?_
  exact ⟨rfl, fun _ _ => trivial⟩

/-- A delete takes the entry of another number with the same name out of the names, and
    the delete of that entry fails. -/
theorem delete_fails_assertion : ∃ map after, wordMapCreate2 (lit "m") .byNameNumber 2 = some map ∧
    run step map [.add (lit "a") 1, .add (lit "a") 2, .deleteByNumber 2] = some after ∧
    wordMapFindByNumber after 1 = some (some (lit "a")) ∧ wordMapDeleteByNumber after 1 = none :=
  ⟨_, _, rfl, rfl, rfl, rfl⟩

section
variable {map after : SWordMap} {op : WordMapOp} {entry other : Entry}

/-- The answers to the keys of entries that stay are the same. -/
private theorem answers_kept (inv : Inv map) (kept : Inv after)
    (byName : ∀ other ∈ entries map.byName, other.address ≠ entry.address → other ∈ entries after.byName)
    (byNumber : ∀ other ∈ entries map.byNumber, other.address ≠ entry.address → other ∈ entries after.byNumber) :
    (∀ name other, hashFind map.byName (nameTemplate name) = some other → other.address ≠ entry.address →
      wordMapFindByName after name = wordMapFindByName map name) ∧
    ∀ number other, hashFind map.byNumber (numberTemplate number) = some other → other.address ≠ entry.address →
      wordMapFindByNumber after number = wordMapFindByNumber map number := by
  constructor
  · intro name other found differs
    obtain ⟨member, same⟩ := (hashFind_iff inv.names).mp found
    have still : hashFind after.byName (nameTemplate name) = some other :=
      (hashFind_iff kept.names).mpr ⟨byName other member differs, (sameName_iff _ _).mpr ((sameName_iff _ _).mp same)⟩
    rw [wordMapFindByName, wordMapFindByName, inv.type, kept.type, found, still]
  · intro number other found differs
    obtain ⟨member, same⟩ := (hashFind_iff inv.numbers).mp found
    have still : hashFind after.byNumber (numberTemplate number) = some other :=
      (hashFind_iff kept.numbers).mpr
        ⟨byNumber other member differs, (sameNumber_iff _ _).mpr ((sameNumber_iff _ _).mp same)⟩
    rw [wordMapFindByNumber, wordMapFindByNumber, inv.type, kept.type, found, still]

/-- What leaves the two tables is the found entry, when the other table holds it. -/
private theorem removes_own (inv : Inv map) (found : foundBy map op = some entry) (own : otherBy map entry op = some entry)
    (ran : step map op = some after) : RemovesOne map after entry := by
  have kept := step_inv inv ran
  obtain ⟨byName, byNumber, result, _, _, restByName, restByNumber⟩ := delete_both inv found own
  cases result.symm.trans ran
  have fromBoth : fromNames entry entry op = entry ∧ fromNumbers entry entry op = entry := by
    cases op <;> exact ⟨rfl, rfl⟩
  rw [fromBoth.1] at restByName
  rw [fromBoth.2] at restByNumber
  have stays : ∀ {other : Entry}, other.address ≠ entry.address → other ≠ entry := fun differs same => differs (same ▸ rfl)
  have keptByName : ∀ other ∈ entries map.byName, other.address ≠ entry.address → other ∈ entries byName :=
    fun other member differs => (restByName other).mpr ⟨member, stays differs⟩
  have keptByNumber : ∀ other ∈ entries map.byNumber, other.address ≠ entry.address → other ∈ entries byNumber :=
    fun other member differs => (restByNumber other).mpr ⟨member, stays differs⟩
  obtain ⟨answersByName, answersByNumber⟩ := answers_kept inv kept keptByName keptByNumber
  exact ⟨⟨fun member => ((restByName entry).mp member).2 rfl, fun member => ((restByNumber entry).mp member).2 rfl⟩,
    keptByName, keptByNumber, answersByName, answersByNumber⟩

/-- Another entry that the other table holds under the key leaves it. -/
private theorem loses_other (inv : Inv map) (found : foundBy map op = some entry) (under : otherBy map entry op = some other)
    (differs : other ≠ entry) (ran : step map op = some after) : ¬ RemovesOne map after entry := by
  obtain ⟨byName, byNumber, result, _, _, restByName, restByNumber⟩ := delete_both inv found under
  cases result.symm.trans ran
  intro removes
  cases op with
  | add name number => cases found
  | deleteByName name =>
    have member := ((hashFind_iff inv.numbers).mp under).1
    have apart : other.address ≠ entry.address := fun same =>
      differs (inv.known other entry (.inr member) (.inl ((hashFind_iff inv.names).mp found).1) same)
    exact ((restByNumber other).mp (removes.keptByNumber other member apart)).2 rfl
  | deleteByNumber number =>
    have member := ((hashFind_iff inv.names).mp under).1
    have apart : other.address ≠ entry.address := fun same =>
      differs (inv.known other entry (.inl member) (.inr ((hashFind_iff inv.numbers).mp found).1) same)
    exact ((restByName other).mp (removes.keptByName other member apart)).2 rfl

end

/-- A delete that returns removes the found entry only, just when it is the one that the
    other table holds under its key. -/
theorem delete_removes_one_iff {name : Text} {size : Int32} {created map after : SWordMap} {ops : List WordMapOp}
    {op : WordMapOp} {entry : Entry} (start : wordMapCreate2 name .byNameNumber size = some created)
    (reached : run step created ops = some map) (found : foundBy map op = some entry) (ran : step map op = some after) :
    RemovesOne map after entry ↔ otherBy map entry op = some entry := by
  have inv : Inv map := run_invariant (fun _ _ _ inv stepped => step_inv inv stepped) (create_inv start) reached
  obtain ⟨other, under⟩ := delete_cases inv found ran
  constructor
  · intro removes
    by_contra differs
    refine loses_other inv found under (fun same => differs ?_) ran removes
    rw [under, same]
  · exact fun own => removes_own inv found own ran

/-- The delete of one of two entries whose names and numbers differ. -/
theorem delete_removes_one_iff_distinct : ∃ created map after entry,
    wordMapCreate2 (lit "m") .byNameNumber 2 = some created ∧
    run step created [.add (lit "a") 1, .add (lit "b") 2] = some map ∧ step map (.deleteByNumber 1) = some after ∧
    (RemovesOne map after entry ↔ otherBy map entry (.deleteByNumber 1) = some entry) ∧
    otherBy map entry (.deleteByNumber 1) = some entry := by
  refine ⟨_, _, _, ⟨0, lit "a", 1⟩, rfl, rfl, rfl, ?_, rfl⟩
  exact @delete_removes_one_iff (lit "m") 2 _ _ _ [.add (lit "a") 1, .add (lit "b") 2] _ _ rfl rfl rfl rfl

/-- The delete of number 2 takes away the entry of number 1, which has the same name. -/
theorem delete_removes_another : ∃ created map after entry other,
    wordMapCreate2 (lit "m") .byNameNumber 2 = some created ∧
    run step created [.add (lit "a") 1, .add (lit "a") 2] = some map ∧
    foundBy map (.deleteByNumber 2) = some entry ∧ step map (.deleteByNumber 2) = some after ∧
    hashFind map.byName (nameTemplate (lit "a")) = some other ∧ other.address ≠ entry.address ∧
    wordMapFindByName map (lit "a") = 1 ∧ wordMapFindByName after (lit "a") = -1 :=
  ⟨_, _, _, _, _, rfl, rfl, rfl, rfl, rfl, by decide, rfl, rfl⟩

end VoxiUtil.WordMapDeletes
