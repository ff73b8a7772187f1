import VoxiUtil.BlockLedger
import VoxiUtil.ErrCopy

/-!
The errors of `err.c` over whole runs of `ErrNew`, which takes over its reason,
`ErrCopy` and `ErrDispose`. Each pointer that the caller holds stands for a chain
with blocks of its own, and no other block is in use.
-/
namespace VoxiUtil.ErrLife
open VoxiUtil.CString VoxiUtil.BlockHeap VoxiUtil.ErrCopy
open VoxiUtil.Err (ErrType Head Error errBuffSize)

/-- `ErrDispose` from the description on. -/
def disposeLevel (memory : Memory) (err : Nat) : Except Stop Memory := do
  let fields ← follow memory (some err)
  let memory ← free memory (← written fields.description)
  free memory (some err)

/-- As many levels as the fuel has are followed. -/
def errDispose : Nat → Memory → Option Nat → Bool → Except Stop Memory
  | 0, _, _, _ => .error .undefined
  | _ + 1, memory, none, _ => .ok memory
  | _ + 1, memory, some err, false => disposeLevel memory err
  | fuel + 1, memory, some err, true => do
    let fields ← follow memory (some err)
    match ← written fields.reason with
    | none => disposeLevel memory err
    | some reason =>
      let memory ← errDispose fuel memory (some reason) true
      disposeLevel memory err

/-- A call by one who names the errors it holds by their places; the pointer of a place where it holds none is NULL. -/
inductive Call where
  | new (type : ErrType) (number : Int32) (description : Text) (reason : Nat)
  | copy (original : Nat)
  | dispose (err : Nat) (recursive : Bool)

/-- The memory and the pointers that the caller holds. -/
structure World where
  memory : Memory
  held : List Nat

/-- The reason of an error, which the caller has when the error alone is disposed of. -/
def reasonOf (memory : Memory) : Option Nat → Except Stop (Option Nat)
  | none => .ok none
  | some err => do
    let fields ← follow memory (some err)
    written fields.reason

/-- There is no copy of NULL, which `ErrCopy` does not allow. -/
def call (succeeds : Nat → Bool) (sizeofError fuel : Nat) (world : World) : Call → Except Stop World
  | .new type number description reason => do
    let (error, memory) ← errNew succeeds world.memory type number world.held[reason]? description
    return ⟨memory, error.toList ++ world.held.eraseIdx reason⟩
  | .copy original =>
    match world.held[original]? with
    | none => .ok world
    | some pointer => do
      let (error, errorCopy, memory) ← errCopy succeeds sizeofError fuel world.memory (some pointer)
      return ⟨memory, (error.or errorCopy).toList ++ world.held⟩
  | .dispose err true => do
    let memory ← errDispose fuel world.memory world.held[err]? true
    return ⟨memory, world.held.eraseIdx err⟩
  | .dispose err false => do
    let reason ← reasonOf world.memory world.held[err]?
    let memory ← errDispose fuel world.memory world.held[err]? false
    return ⟨memory, reason.toList ++ world.held.eraseIdx err⟩

/-- The rest of a chain. -/
def Error.reason : Error → Option Error
  | .root _ => none
  | .because _ reason => some reason

/-- What a caller holds after a call, as chains. -/
def meaning (errors : List Error) : Call → List Error
  | .new type number description reason => Err.errNew type number errors[reason]? description :: errors.eraseIdx reason
  | .copy original => errors[original]?.toList ++ errors
  | .dispose err true => errors.eraseIdx err
  | .dispose err false => (errors[err]?.bind Error.reason).toList ++ errors.eraseIdx err

/-- A pointer that is held, its chain and the blocks of it. -/
abbrev Entry := Nat × Error × List Nat

/-- Each pointer stands for its chain, no block is in two of them and there is no other block in use. -/
structure Held (blocks : List (Option Block)) (entries : List Entry) : Prop where
  laid : ∀ entry ∈ entries, Laid blocks entry.1 entry.2.1 true entry.2.2
  owned : Owned blocks (entries.flatMap (·.2.2))

/-- What the caller holds stands for these errors. -/
def Stands (world : World) (errors : List Error) : Prop :=
  ∃ entries, Held world.memory.blocks entries ∧ world.held = entries.map (·.1) ∧ errors = entries.map (·.2.1)

section
variable {blocks after : List (Option Block)} {memory : Memory} {entries rest : List Entry} {entry : Entry}
  {freed strings inUse : List Nat} {p fuel : Nat} {text : Text}

/-! ## Disposing -/

theorem free_ok {a : Nat} {contents : Block} (found : lookup memory.blocks a = some contents) :
    ∃ after, free memory (some a) = .ok after ∧ Freed memory.blocks [a] after.blocks :=
  ⟨{ memory with blocks := memory.blocks.set a none }, by simp [free, found], freed_set found⟩

/-- The description of a level goes and then its struct. -/
theorem disposeLevel_ok {fields : SError} {description : Option Nat} {present : Bool}
    (struct : lookup memory.blocks p = some (.error fields)) (field : fields.description = some description)
    (described : Described memory.blocks description text present strings) (apart : p ∉ strings) :
    ∃ after, disposeLevel memory p = .ok after ∧ Freed memory.blocks (strings ++ [p]) after.blocks := by
  rcases described with ⟨d, rfl, found, _, rfl⟩ | ⟨rfl, _, rfl⟩
  · obtain ⟨between, freed, gone⟩ := free_ok found
    have still : lookup between.blocks p = some (.error fields) := by rw [freed_lookup gone apart, struct]
    obtain ⟨after, freed', gone'⟩ := free_ok still
    refine ⟨after, ?_, freed_trans gone gone'⟩
    simp [disposeLevel, follow_error struct, field, written, freed, freed', bind, Except.bind]
  · obtain ⟨after, freed, gone⟩ := free_ok struct
    refine ⟨after, ?_, gone⟩
    simpa [disposeLevel, follow_error struct, field, written, free, bind, Except.bind] using freed

/-- A whole chain. -/
theorem errDispose_chain {chain : Error} {whole : Bool} (laid : Laid memory.blocks p chain whole inUse)
    (apart : inUse.Nodup) (enough : depth chain ≤ fuel) :
    ∃ after, errDispose fuel memory (some p) true = .ok after ∧ Freed memory.blocks inUse after.blocks := by
  induction chain generalizing p memory whole inUse fuel with
  | root head =>
    obtain ⟨description, strings, struct, described, rfl⟩ := laid
    obtain ⟨fuel, rfl⟩ : ∃ more, fuel = more + 1 := ⟨fuel - 1, by rw [depth] at enough; omega⟩
    obtain ⟨after, disposed, gone⟩ := disposeLevel_ok struct rfl described (List.nodup_cons.mp apart).1
    refine ⟨after, ?_, freed_perm List.perm_append_comm gone⟩
    simpa [errDispose, follow_error struct, written, bind, Except.bind] using disposed
  | because head reason ih =>
    obtain ⟨description, present, strings, next, more, rest, struct, described, behind, rfl, rfl⟩ := laid
    obtain ⟨fuel, rfl⟩ : ∃ more, fuel = more + 1 := ⟨fuel - 1, by rw [depth] at enough; omega⟩
    obtain ⟨notIn, apart⟩ := List.nodup_cons.mp apart
    obtain ⟨own, behindApart, disjoint⟩ := List.nodup_append.mp apart
    have fits : depth reason ≤ fuel := by rw [depth] at enough; omega
    obtain ⟨between, disposed, gone⟩ := ih behind behindApart fits
    -- the level itself is not in what was given back with its reason
    have still : lookup between.blocks p = some (.error ⟨some head.type, some head.number, some description, some (some next)⟩) := by
      rw [freed_lookup gone fun member => notIn (List.mem_append_right _ member), struct]
    have kept := described_frame described fun a member =>
      freed_lookup gone fun member' => disjoint a member a member' rfl
    obtain ⟨after, disposed', gone'⟩ := disposeLevel_ok still rfl kept fun member => notIn (List.mem_append_left _ member)
    refine ⟨after, ?_, freed_perm ?_ (freed_trans gone gone')⟩
    · rw [errDispose, follow_error struct]
      simpa [written, disposed, bind, Except.bind] using disposed'
    · rw [← List.append_assoc]
      exact List.perm_append_singleton _ _ |>.trans (List.perm_append_comm.cons p)

/-! ## What is held -/

theorem held_perm {entries' : List Entry} (same : entries.Perm entries') (held : Held blocks entries) : Held blocks entries' :=
  ⟨fun entry member => held.laid entry (same.mem_iff.mpr member), owned_perm (same.flatMap_right (·.2.2)) held.owned⟩

/-- Some blocks of an entry are given back and what is left of it is held on its own. -/
theorem held_less (left : List Entry) (held : Held blocks (entry :: rest)) (gone : Freed blocks freed after)
    (parts : entry.2.2.Perm (freed ++ left.flatMap (·.2.2)))
    (laid : ∀ part ∈ left, Laid blocks part.1 part.2.1 true part.2.2) : Held after (left ++ rest) := by
  have all : ((entry :: rest).flatMap (·.2.2)).Perm (freed ++ (left ++ rest).flatMap (·.2.2)) := by
    simpa using parts.append_right (rest.flatMap (·.2.2))
  have owned := owned_perm all held.owned
  refine ⟨fun part member => ?_, owned_less owned gone⟩
  refine laid_frame ?_ fun a used => owned_kept owned gone (List.mem_flatMap.mpr ⟨part, member, used⟩)
  rcases List.mem_append.mp member with early | late
  · exact laid part early
  · exact held.laid part (List.mem_cons_of_mem _ late)

/-- An entry has blocks behind all that was in memory, and those of an entry that it takes over. -/
theorem held_more {absorbed : List Entry} {fresh : List Nat} (held : Held blocks (absorbed ++ rest)) (grown : blocks <+: after)
    (laid : Laid after entry.1 entry.2.1 true entry.2.2) (parts : entry.2.2.Perm (fresh ++ absorbed.flatMap (·.2.2)))
    (apart : fresh.Nodup) (new : ∀ a, a ∈ fresh ↔ blocks.length ≤ a ∧ (lookup after a).isSome) :
    Held after (entry :: rest) := by
  have all : ((entry :: rest).flatMap (·.2.2)).Perm (fresh ++ (absorbed ++ rest).flatMap (·.2.2)) := by
    simpa using parts.append_right (rest.flatMap (·.2.2))
  refine ⟨List.forall_mem_cons.mpr ⟨laid, fun part member => laid_grown (held.laid part (by simp [member])) grown⟩, ?_⟩
  exact owned_perm all.symm (owned_more held.owned grown apart new)

/-! ## The calls -/

/-- A copy has the blocks from the end of the memory on, two for each level. -/
theorem errCopy_new {succeeds : Nat → Bool} (sizeofError : Nat) {chain : Error} (available : ∀ i, succeeds i = true)
    (laid : Laid memory.blocks p chain true inUse) (enough : depth chain ≤ fuel) :
    ∃ after, errCopy succeeds sizeofError fuel memory (some p) = .ok (none, some memory.blocks.length, after) ∧
      memory.blocks <+: after.blocks ∧ after.blocks.length = memory.blocks.length + 2 * depth chain ∧
      Laid after.blocks memory.blocks.length chain true (List.range' memory.blocks.length (2 * depth chain)) := by
  have made : ∀ i, attempt succeeds i = .made := fun i => by simp [attempt, available]
  induction chain generalizing p memory inUse fuel with
  | root head =>
    obtain ⟨description, strings, struct, described, rfl⟩ := laid
    obtain ⟨d, rfl, string⟩ := described_whole described
    obtain ⟨fuel, rfl⟩ : ∃ more, fuel = more + 1 := ⟨fuel - 1, by rw [depth] at enough; omega⟩
    rw [errCopy_made (made _)]
    rcases copyFields_cases struct string rfl with ⟨_, result⟩ | ⟨other, _⟩ | ⟨other, _⟩ | ⟨other, _⟩
    · rw [result, copyReason_root]
      refine ⟨_, rfl, List.prefix_append _ _, by simp [depth], ?_⟩
      refine ⟨some (memory.blocks.length + 1), [memory.blocks.length + 1], lookup_new .., .inl ⟨_, rfl, ?_, rfl, rfl⟩, rfl⟩
      simp [lookup]
    · simp [made] at other
    · simp [made] at other
    · simp [made] at other
  | because head reason ih =>
    obtain ⟨description, present, strings, next, more, rest, struct, described, behind, both, rfl⟩ := laid
    obtain ⟨rfl, rfl⟩ := Bool.and_eq_true_iff.mp both.symm
    obtain ⟨d, rfl, string⟩ := described_whole described
    obtain ⟨fuel, rfl⟩ : ∃ more, fuel = more + 1 := ⟨fuel - 1, by rw [depth] at enough; omega⟩
    rw [errCopy_made (made _)]
    rcases copyFields_cases struct string rfl with ⟨_, result⟩ | ⟨other, _⟩ | ⟨other, _⟩ | ⟨other, _⟩
    · rw [result]
      set begun := started memory (some head.type) (some head.number) (some (memory.blocks.length + 1))
        (some (.string head.description)) (memory.calls + 2)
        ((memory.blocks.length + 1) :: memory.blocks.length :: memory.copied) with opening
      have first : memory.blocks <+: begun.blocks := List.prefix_append _ _
      have fits : depth reason ≤ fuel := by rw [depth] at enough; omega
      obtain ⟨after, copied, grown, size, placed⟩ := ih (laid_grown behind first) fits
      have start : begun.blocks.length = memory.blocks.length + 2 := by simp [opening, started]
      rw [start] at placed copied size
      have room : memory.blocks.length < after.blocks.length := by omega
      have text : lookup after.blocks (memory.blocks.length + 1) = some (.string head.description) :=
        lookup_kept grown (by simp [opening, started, lookup])
      rcases copyReason_cases copied (fun _ _ _ same => by cases same; exact grown) (by simp) rfl with
        ⟨_, stopped, _⟩ | ⟨pointer, _, returned, result⟩ | ⟨_, _, _, failed, _⟩
      · cases stopped
      · cases returned
        refine ⟨_, result, prefix_set (first.trans grown) le_rfl, by simp only [List.length_set, size, depth]; omega, ?_⟩
        refine ⟨some (memory.blocks.length + 1), true, [memory.blocks.length + 1], memory.blocks.length + 2, true,
          List.range' (memory.blocks.length + 2) (2 * depth reason), lookup_set room, .inl ⟨_, rfl, ?_, rfl, rfl⟩, ?_, rfl, ?_⟩
        · rw [lookup_set_other (by omega), text]
        · refine laid_frame placed fun a member => lookup_set_other ?_
          have := (List.mem_range'_1.mp member).1
          omega
        · rw [show 2 * depth (.because head reason) = 2 * depth reason + 1 + 1 by rw [depth]; omega]
          rw [List.range'_succ, List.range'_succ]
          rfl
      · cases failed
    · simp [made] at other
    · simp [made] at other
    · simp [made] at other

theorem held_disposed (held : Held memory.blocks (entry :: rest)) (enough : depth entry.2.1 ≤ fuel) :
    ∃ after, errDispose fuel memory (some entry.1) true = .ok after ∧ Held after.blocks rest := by
  have apart : entry.2.2.Nodup := (List.nodup_append.mp held.owned.apart).1
  obtain ⟨after, disposed, gone⟩ := errDispose_chain (held.laid entry (by simp)) apart enough
  exact ⟨after, disposed, held_less [] held gone (by simp) (by simp)⟩

/-- What is left of an error that is disposed of alone is its reason. -/
theorem held_alone (held : Held memory.blocks (entry :: rest)) (positive : 0 < fuel) :
    ∃ reason after left, reasonOf memory (some entry.1) = .ok reason ∧
      errDispose fuel memory (some entry.1) false = .ok after ∧ Held after.blocks (left ++ rest) ∧
      reason.toList = left.map (·.1) ∧ (Error.reason entry.2.1).toList = left.map (·.2.1) := by
  obtain ⟨fuel, rfl⟩ : ∃ more, fuel = more + 1 := ⟨fuel - 1, by omega⟩
  obtain ⟨p, chain, inUse⟩ := entry
  have apart : inUse.Nodup := (List.nodup_append.mp held.owned.apart).1
  have laid : Laid memory.blocks p chain true inUse := held.laid (p, chain, inUse) (by simp)
  cases chain with
  | root head =>
    obtain ⟨description, strings, struct, described, rfl⟩ := laid
    obtain ⟨after, disposed, gone⟩ := disposeLevel_ok struct rfl described (List.nodup_cons.mp apart).1
    refine ⟨none, after, [], ?_, disposed, held_less _ held gone ?_ (by simp), rfl, rfl⟩
    · simp [reasonOf, follow_error struct, written, bind, Except.bind]
    · simpa using (List.perm_append_singleton p strings).symm
  | because head reason =>
    obtain ⟨description, present, strings, next, more, behind, struct, described, laid, both, rfl⟩ := laid
    obtain ⟨rfl, rfl⟩ := Bool.and_eq_true_iff.mp both.symm
    obtain ⟨notIn, _⟩ := List.nodup_cons.mp apart
    obtain ⟨after, disposed, gone⟩ := disposeLevel_ok struct rfl described fun member => notIn (List.mem_append_left _ member)
    refine ⟨next, after, [(next, reason, behind)], ?_, disposed, held_less _ held gone ?_ (by simpa using laid), rfl, rfl⟩
    · simp [reasonOf, follow_error struct, written, bind, Except.bind]
    · simpa using ((List.perm_append_singleton p strings).symm.append_right behind)

theorem laid_live {chain : Error} {whole : Bool} (laid : Laid blocks p chain whole inUse) :
    ∀ a ∈ inUse, (lookup blocks a).isSome := by
  have string : ∀ {description : Option Nat} {present : Bool} {strings : List Nat} {text : Text},
      Described blocks description text present strings → ∀ a ∈ strings, (lookup blocks a).isSome := by
    rintro _ _ _ _ (⟨d, rfl, found, rfl, rfl⟩ | ⟨_, _, rfl⟩) <;> simp [*]
  induction chain generalizing p whole inUse with
  | root head =>
    obtain ⟨description, strings, struct, described, rfl⟩ := laid
    exact List.forall_mem_cons.mpr ⟨by rw [struct]; rfl, string described⟩
  | because head reason ih =>
    obtain ⟨description, present, strings, next, more, rest, struct, described, behind, rfl, rfl⟩ := laid
    exact List.forall_mem_cons.mpr ⟨by rw [struct]; rfl, List.forall_mem_append.mpr ⟨string described, ih behind⟩⟩

section
variable {succeeds : Nat → Bool} (available : ∀ i, succeeds i = true)
include available

theorem held_copied (sizeofError : Nat) (held : Held memory.blocks entries) (member : entry ∈ entries) (enough : depth entry.2.1 ≤ fuel) :
    ∃ copy after new, errCopy succeeds sizeofError fuel memory (some entry.1) = .ok (none, some copy, after) ∧
      Held after.blocks ((copy, entry.2.1, new) :: entries) := by
  obtain ⟨after, copied, grown, size, laid⟩ := errCopy_new sizeofError available (held.laid entry member) enough
  have parts : (List.range' memory.blocks.length (2 * depth entry.2.1)).Perm
      (List.range' memory.blocks.length (2 * depth entry.2.1) ++ ([] : List Entry).flatMap (·.2.2)) := by simp
  refine ⟨_, after, _, copied, held_more held grown laid parts List.nodup_range' fun a => ?_⟩
  constructor
  · intro inside
    exact ⟨(List.mem_range'_1.mp inside).1, laid_live laid a inside⟩
  · rintro ⟨behind, found⟩
    obtain ⟨_, found⟩ := Option.isSome_iff_exists.mp found
    exact List.mem_range'_1.mpr ⟨behind, size ▸ lookup_lt found⟩

/-- The description's block and the struct's. -/
theorem errNew_ok (type : ErrType) (number : Int32) (reason : Option Nat) (description : Text) :
    errNew succeeds memory type number reason description = .ok (some (memory.blocks.length + 1),
      ⟨memory.blocks ++ [some (.string (description.take (errBuffSize - 1))),
        some (.error ⟨some type, some number, some (some memory.blocks.length), some reason⟩)],
        memory.calls + 2, memory.copied⟩) := by
  simp [errNew, malloc, available]

/-- The new error has taken over the entry of its reason, if there is one. -/
theorem held_new (absorbed : List Entry) (reason : Option Entry) (type : ErrType) (number : Int32) (description : Text)
    (held : Held memory.blocks (absorbed ++ rest)) (taken : absorbed = reason.toList) :
    ∃ after new, errNew succeeds memory type number (reason.map (·.1)) description = .ok (some (memory.blocks.length + 1), after) ∧
      Held after.blocks ((memory.blocks.length + 1, Err.errNew type number (reason.map (·.2.1)) description, new) :: rest) := by
  have grown := List.prefix_append memory.blocks [some (.string (description.take (errBuffSize - 1))),
    some (.error ⟨some type, some number, some (some memory.blocks.length), some (reason.map (·.1))⟩)]
  set after := memory.blocks ++ [some (.string (description.take (errBuffSize - 1))),
    some (.error ⟨some type, some number, some (some memory.blocks.length), some (reason.map (·.1))⟩)] with new
  have string : lookup after memory.blocks.length = some (.string (description.take (errBuffSize - 1))) := by simp [new, lookup]
  have struct : lookup after (memory.blocks.length + 1) =
      some (.error ⟨some type, some number, some (some memory.blocks.length), some (reason.map (·.1))⟩) := by simp [new, lookup]
  have described : Described after (some memory.blocks.length) (description.take (errBuffSize - 1)) true [memory.blocks.length] :=
    .inl ⟨_, rfl, string, rfl, rfl⟩
  have ends : ∀ a, a ∈ [memory.blocks.length + 1, memory.blocks.length] ↔ memory.blocks.length ≤ a ∧ (lookup after a).isSome := by
    intro a
    constructor
    · intro member
      rcases List.mem_pair.mp member with rfl | rfl <;> simp [string, struct]
    · rintro ⟨behind, found⟩
      obtain ⟨_, found⟩ := Option.isSome_iff_exists.mp found
      have inside := lookup_lt found
      rw [new, List.length_append] at inside
      simp only [List.length_cons, List.length_nil] at inside
      simp only [List.mem_cons, List.not_mem_nil, or_false]
      omega
  refine ⟨_, [memory.blocks.length + 1, memory.blocks.length] ++ absorbed.flatMap (·.2.2), errNew_ok available .., ?_⟩
  refine held_more held grown ?_ (List.Perm.refl _) (by simp) ends
  subst taken
  rcases reason with _ | ⟨q, chain, used⟩
  · exact ⟨some memory.blocks.length, [memory.blocks.length], struct, described, rfl⟩
  · have behind := laid_grown (held.laid (q, chain, used) (by simp)) grown
    exact ⟨some memory.blocks.length, true, [memory.blocks.length], q, true, used, struct, described, behind, rfl, by simp⟩

end

/-- The place of what is held is that of its entry. -/
theorem entry_cases (entries : List Entry) (place : Nat) :
    (entries[place]? = none ∧ entries.eraseIdx place = entries) ∨
      ∃ entry, entries[place]? = some entry ∧ entries.Perm (entry :: entries.eraseIdx place) := by
  by_cases inside : place < entries.length
  · exact .inr ⟨entries[place], List.getElem?_eq_getElem inside, (List.getElem_cons_eraseIdx_perm inside).symm⟩
  · have beyond := Nat.le_of_not_lt inside
    exact .inl ⟨List.getElem?_eq_none beyond, List.eraseIdx_of_length_le beyond⟩

end

/-! ## Runs -/

section
variable {succeeds : Nat → Bool} {fuel : Nat} {world : World} {errors : List Error}

def run (succeeds : Nat → Bool) (sizeofError fuel : Nat) (calls : List Call) (world : World) : Except Stop World :=
  calls.foldlM (call succeeds sizeofError fuel) world

/-- Every call succeeds and does to what is held what it means. -/
theorem call_stands (sizeofError : Nat) (available : ∀ i, succeeds i = true) (stands : Stands world errors) (c : Call)
    (enough : ∀ e ∈ errors, depth e ≤ fuel) (positive : 0 < fuel) :
    ∃ world', call succeeds sizeofError fuel world c = .ok world' ∧ Stands world' (meaning errors c) := by
  obtain ⟨entries, held, pointers, rfl⟩ := stands
  have place : ∀ i : Nat, world.held[i]? = entries[i]?.map (·.1) := fun i => by rw [pointers, List.getElem?_map]
  have erased : ∀ i : Nat, world.held.eraseIdx i = (entries.eraseIdx i).map (·.1) := fun i => by
    rw [pointers, List.eraseIdx_map]
  cases c with
  | new type number description reason =>
    rcases entry_cases entries reason with ⟨nothing, same⟩ | ⟨entry, found, perm⟩
    · obtain ⟨after, new, made, held'⟩ :=
        held_new available [] none type number description held rfl
      refine ⟨⟨after, (world.memory.blocks.length + 1) :: world.held.eraseIdx reason⟩, ?_, _, held', ?_, ?_⟩
      · simp only [call, place, nothing, Option.map_none] at made ⊢
        simp [made, bind, Except.bind, pure, Except.pure]
      · simp [erased, same]
      · simp [meaning, nothing, same, List.eraseIdx_map]
    · obtain ⟨after, new, made, held'⟩ :=
        held_new available [entry] (some entry) type number description (held_perm perm held) rfl
      refine ⟨⟨after, (world.memory.blocks.length + 1) :: world.held.eraseIdx reason⟩, ?_, _, held', ?_, ?_⟩
      · simp only [call, place, found, Option.map_some] at made ⊢
        simp [made, bind, Except.bind, pure, Except.pure]
      · simp [erased]
      · simp [meaning, found, List.eraseIdx_map]
  | copy original =>
    rcases entry_cases entries original with ⟨nothing, _⟩ | ⟨entry, found, _⟩
    · exact ⟨world, by simp [call, place, nothing], entries, held, pointers, by simp [meaning, nothing]⟩
    · have member := List.mem_of_getElem? found
      have fits := enough _ (List.mem_map_of_mem member)
      obtain ⟨copy, after, new, copied, held'⟩ := held_copied available sizeofError held member fits
      refine ⟨⟨after, copy :: world.held⟩, ?_, _, held', by simp [pointers], by simp [meaning, found]⟩
      simp [call, place, found, copied, bind, Except.bind, pure, Except.pure]
  | dispose err recursive =>
    obtain ⟨more, rfl⟩ : ∃ more, fuel = more + 1 := ⟨fuel - 1, by omega⟩
    rcases entry_cases entries err with ⟨nothing, same⟩ | ⟨entry, found, perm⟩
    · -- `ErrDispose` of NULL does nothing
      refine ⟨world, ?_, entries, held, pointers, ?_⟩
      · cases recursive <;>
          simp [call, place, nothing, erased, same, errDispose, reasonOf, ← pointers, bind, Except.bind, pure, Except.pure]
      · cases recursive <;> simp [meaning, nothing, List.eraseIdx_map, same]
    · have held := held_perm perm held
      have fits := enough _ (List.mem_map_of_mem (List.mem_of_getElem? found))
      cases recursive with
      | true =>
        obtain ⟨after, disposed, held'⟩ := held_disposed held fits
        refine ⟨⟨after, world.held.eraseIdx err⟩, ?_, _, held', erased err, by simp [meaning, List.eraseIdx_map]⟩
        simp [call, place, found, disposed, bind, Except.bind, pure, Except.pure]
      | false =>
        obtain ⟨reason, after, left, read, disposed, held', pointer, chain⟩ := held_alone held positive
        refine ⟨⟨after, reason.toList ++ world.held.eraseIdx err⟩, ?_, _, held', ?_, ?_⟩
        · simp [call, place, found, read, disposed, bind, Except.bind, pure, Except.pure]
        · simp [pointer, erased]
        · simp [meaning, found, chain, List.eraseIdx_map]

/-- A call puts at most one level on what is held. -/
theorem meaning_depth {k : Nat} (fits : ∀ e ∈ errors, depth e ≤ k) (c : Call) : ∀ e ∈ meaning errors c, depth e ≤ k + 1 := by
  have kept : ∀ i, ∀ e ∈ errors.eraseIdx i, depth e ≤ k + 1 := fun i e member =>
    (fits e (List.mem_of_mem_eraseIdx member)).trans (Nat.le_succ k)
  have one : ∀ i e, errors[i]? = some e → depth e ≤ k := fun i e found => fits e (List.mem_of_getElem? found)
  cases c with
  | new type number description reason =>
    refine List.forall_mem_cons.mpr ⟨?_, kept reason⟩
    rcases found : errors[reason]? with _ | chain
    · exact Nat.le_add_left ..
    · exact Nat.succ_le_succ (one _ _ found)
  | copy original =>
    refine List.forall_mem_append.mpr ⟨fun e member => ?_, fun e member => (fits e member).trans (Nat.le_succ k)⟩
    exact (one original e (by simpa using member)).trans (Nat.le_succ k)
  | dispose err recursive =>
    cases recursive with
    | true => exact kept err
    | false =>
      refine List.forall_mem_append.mpr ⟨fun e member => ?_, kept err⟩
      obtain ⟨chain, found, reason⟩ := Option.bind_eq_some_iff.mp (Option.mem_toList.mp member)
      have bound := one err chain found
      cases chain with
      | root head => cases reason
      | because head behind =>
        cases reason
        rw [depth] at bound
        omega

theorem run_stands (sizeofError k : Nat) (available : ∀ i, succeeds i = true) (calls : List Call) (stands : Stands world errors)
    (fits : ∀ e ∈ errors, depth e ≤ k) (enough : k + calls.length ≤ fuel) :
    ∃ world', run succeeds sizeofError fuel calls world = .ok world' ∧ Stands world' (calls.foldl meaning errors) := by
  induction calls generalizing world errors k with
  | nil => exact ⟨world, rfl, stands⟩
  | cons c calls ih =>
    rw [List.length_cons] at enough
    have here : k ≤ fuel := by omega
    obtain ⟨between, first, stands⟩ := call_stands sizeofError available stands c
      (fun e member => (fits e member).trans here) (by omega)
    have room : k + 1 + calls.length ≤ fuel := by omega
    obtain ⟨world', others, stands⟩ := ih (k + 1) stands (meaning_depth fits c) room
    refine ⟨world', ?_, stands⟩
    rw [run, List.foldlM_cons, first]
    exact others

/-- Before the first call. -/
theorem nothing_stands : Stands ⟨⟨[], 0, []⟩, []⟩ [] :=
  ⟨[], ⟨by simp, owned_nothing⟩, rfl, rfl⟩

end

/-- While there is memory every call of a run succeeds, whatever the calls are, and each pointer that the caller holds stands
    for the chain that the calls mean, with blocks of its own. Nothing else is in use: who holds no error has left no block. -/
theorem errors_settle (succeeds : Nat → Bool) (available : ∀ i, succeeds i = true) (sizeofError fuel : Nat) (calls : List Call)
    (enough : calls.length ≤ fuel) :
    ∃ world, run succeeds sizeofError fuel calls ⟨⟨[], 0, []⟩, []⟩ = .ok world ∧ Stands world (calls.foldl meaning []) ∧
      (calls.foldl meaning [] = [] → ∀ a, lookup world.memory.blocks a = none) := by
  obtain ⟨world, done, stands⟩ := run_stands sizeofError 0 available calls nothing_stands (by simp)
    (by simpa using enough)
  refine ⟨world, done, stands, fun empty a => ?_⟩
  obtain ⟨entries, held, _, errors⟩ := stands
  have nothing : entries = [] := List.map_eq_nil_iff.mp (errors.symm.trans empty)
  subst nothing
  exact owned_none held.owned a

/-- A refusal that is the reason of another error, a copy of it, the reason kept for itself and then all disposed of. -/
private def episode : List Call :=
  [.new .errno 13 (lit "Refused") 0, .new .tcpip 2 (lit "No host") 0, .copy 0, .dispose 1 false, .dispose 1 true, .dispose 0 true]

theorem errors_settle_episode :
    ∃ world, run (fun _ => true) 24 6 episode ⟨⟨[], 0, []⟩, []⟩ = .ok world ∧ Stands world (episode.foldl meaning []) ∧
      (episode.foldl meaning [] = [] → ∀ a, lookup world.memory.blocks a = none) :=
  errors_settle (fun _ => true) (fun _ => rfl) 24 6 episode (by decide)

end VoxiUtil.ErrLife
