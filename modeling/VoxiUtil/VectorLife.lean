import VoxiUtil.VectorList

/-!
Any number of vectors held by references: who frees a vector, and where the elements go that
were put into it. A clone copies the elements and not what they stand for.
-/
namespace VoxiUtil.VectorLife
open VoxiUtil.Vector VoxiUtil.VectorList VoxiUtil.Runs VoxiUtil.ThreadingCalls
open VoxiUtil.Limits (intMax sizeMax)

/-! ### The references of a vector -/

section
variable {τ α : Type}

def vectorRefcountIncrease (vector : SVector τ α) : Option (SVector τ α) := do
  assert (vector.refCount + 1 ≤ intMax)
  some { vector with refCount := vector.refCount + 1 }

/-- The elements that the destroy function is given. -/
def vectorDestroy (vector : SVector τ α) : Option (List α) :=
  if vector.destroyFunc then elements vector.data vector.elementCount else some []

/-- With the elements that were destroyed; the vector is none when it was freed. -/
def vectorRefcountDecrease (vector : SVector τ α) : Option (List α × Option (SVector τ α)) := do
  assert (0 < vector.refCount)
  let vector := { vector with refCount := vector.refCount - 1 }
  if vector.refCount = 0 then (vectorDestroy vector).map fun destroyed => (destroyed, none) else some ([], some vector)

/-! ### Many vectors -/

/-- A vector that was freed is none. `refs` are the references that are held; the rest is a record: the elements that were
    put into vectors and those that clones copied, and the ones that were destroyed and that left a vector otherwise. -/
structure World (τ α : Type) where
  vectors : List (Option (SVector τ α))
  refs : List Nat
  given : List α
  copied : List α
  destroyed : List α
  dropped : List α

def start : World τ α := ⟨[], [], [], [], [], []⟩

def World.at (w : World τ α) (i : Nat) : Option (SVector τ α) := w.vectors[i]?.join

def contentsOf (vector : SVector τ α) : List α := (elements vector.data vector.elementCount).getD []

/-- The elements in the vectors that were not freed. -/
def live (vectors : List (Option (SVector τ α))) : List α := vectors.flatMap fun vector => vector.elim [] contentsOf

inductive Act (τ α : Type)
  | create (thread : τ) (elementSize initialCapacity capacityIncrement : Nat) (destroyFunc : Bool)
  | clone (thread : τ) (i : Nat)
  | refcountIncrease (i : Nat)
  | refcountDecrease (i : Nat)
  | append (t : τ) (i : Nat) (element : α)
  | setElementAt (t : τ) (i index : Nat) (element : α)
  | removeLastElement (i : Nat)
  | removeAll (i : Nat)

variable [DecidableEq τ]

def step (w : World τ α) : Act τ α → Option (World τ α)
  | .create thread elementSize initialCapacity capacityIncrement destroyFunc =>
    (vectorCreate thread elementSize initialCapacity capacityIncrement destroyFunc).map fun vector =>
      { w with vectors := w.vectors ++ [some vector], refs := w.vectors.length :: w.refs }
  | .clone thread i => do
    let a ← w.at i
    let b ← vectorClone thread a
    some { w with vectors := w.vectors ++ [some b], refs := w.vectors.length :: w.refs, copied := w.copied ++ contentsOf b }
  | .refcountIncrease i => do
    let vector ← w.at i
    let after ← vectorRefcountIncrease vector
    some { w with vectors := w.vectors.set i (some after), refs := i :: w.refs }
  | .refcountDecrease i => do
    let vector ← w.at i
    let (destroyed, after) ← vectorRefcountDecrease vector
    some { w with vectors := w.vectors.set i after, refs := w.refs.erase i, destroyed := w.destroyed ++ destroyed
                  dropped := w.dropped ++ if after.isNone && !vector.destroyFunc then contentsOf vector else [] }
  | .append t i element => do
    let vector ← w.at i
    let (_, after) ← vectorAppend t vector element
    some { w with vectors := w.vectors.set i (some after), given := w.given ++ [element] }
  | .setElementAt t i index element => do
    let vector ← w.at i
    let after ← vectorSetElementAt t vector index element
    some { w with vectors := w.vectors.set i (some after), given := w.given ++ [element]
                  dropped := w.dropped ++ (contentsOf vector)[index]?.toList }
  | .removeLastElement i => do
    let vector ← w.at i
    let after ← vectorRemoveLastElement vector
    some { w with vectors := w.vectors.set i (some after), dropped := w.dropped ++ (contentsOf vector).getLast?.toList }
  | .removeAll i => do
    let vector ← w.at i
    let (destroyed, after) ← vectorRemoveAll vector
    some { w with vectors := w.vectors.set i (some after), destroyed := w.destroyed ++ destroyed
                  dropped := w.dropped ++ if vector.destroyFunc then [] else contentsOf vector }

/-- The caller holds a reference to the vector, and this is so. -/
def Held (w : World τ α) (i : Nat) (allowed : SVector τ α → Prop) : Prop := i ∈ w.refs ∧ ∀ vector, w.at i = some vector → allowed vector

/-- Vectors are used only through references that are held, elements that are there, and in the range of `int` and `size_t`. -/
def Permitted (w : World τ α) : Act τ α → Prop
  | .create _ elementSize initialCapacity capacityIncrement _ => 0 < capacityIncrement ∧ elementSize * initialCapacity ≤ sizeMax
  | .clone _ i => Held w i fun vector => CapacityFits vector (vector.elementCount + vector.capacityIncrement)
  | .refcountIncrease i => Held w i fun vector => vector.refCount + 1 ≤ intMax
  | .refcountDecrease i => Held w i fun _ => True
  | .append _ i _ => Held w i fun vector => Fits vector True
  | .setElementAt _ i index _ => Held w i fun vector =>
    index < vector.elementCount ∧ Fits vector False ∨ index = vector.elementCount ∧ Fits vector True
  | .removeLastElement i => Held w i fun vector => vector.elementCount ≠ 0
  | .removeAll i => Held w i fun _ => True

/-- A vector is there just while references to it are held, and counts them; and every element that was put into a vector or
    copied by a clone was destroyed, left its vector otherwise, or is in a vector that is there, each time once. -/
structure Settled (w : World τ α) : Prop where
  counted : ∀ i vector, w.at i = some vector → vector.refCount = w.refs.count i
  there : ∀ i, i ∈ w.refs ↔ (w.at i).isSome = true
  account : (w.given ++ w.copied).Perm (w.destroyed ++ w.dropped ++ live w.vectors)

/-- What a run keeps. -/
structure Inv (w : World τ α) : Prop extends Settled w where
  holding : ∀ i vector, w.at i = some vector → ∃ contents, ∀ t, Holding t vector 0 contents

omit [DecidableEq τ]
variable {w w' : World τ α} {i : Nat} {vector after : SVector τ α} {contents : List α} {t : τ}

/-- A vector that nobody has locked is the same for every thread. -/
theorem Holding.everywhere (holding : Holding t vector 0 contents) (u : τ) : Holding u vector 0 contents := by
  have lock : Holds u vector.lock 0 :=
    ⟨holding.lock.semaphore, holding.lock.count, holding.lock.mutex, fun nested => absurd rfl nested, holding.lock.outside⟩
  exact { holding with lock }

theorem elements_held (holding : Holding t vector 0 contents) : elements vector.data vector.elementCount = some contents := by
  rw [holding.count]
  exact elements_contents holding.front

theorem contentsOf_held (holding : Holding t vector 0 contents) : contentsOf vector = contents := by
  rw [contentsOf, elements_held holding]
  rfl

theorem at_set {after : Option (SVector τ α)} (found : w.at i = some vector) (vectors : w'.vectors = w.vectors.set i after) (j : Nat) :
    w'.at j = if j = i then after else w.at j := by
  obtain ⟨place, -⟩ : ∃ place, w.vectors[i]? = some place := by
    cases there : w.vectors[i]? with
    | none => simp [World.at, there] at found
    | some place => exact ⟨place, rfl⟩
  have inside : i < w.vectors.length := by
    by_contra outside
    simp [World.at, List.getElem?_eq_none (Nat.not_lt.mp outside)] at found
  by_cases same : j = i
  · subst same
    simp [World.at, vectors, List.getElem?_set_self inside]
  · rw [if_neg same, World.at, vectors, List.getElem?_set_ne (Ne.symm same), World.at]

/-- One vector in the place of another. -/
theorem live_set (after : Option (SVector τ α)) (found : w.at i = some vector) :
    (contentsOf vector ++ live (w.vectors.set i after)).Perm (after.elim [] contentsOf ++ live w.vectors) := by
  have inside : i < w.vectors.length := by
    by_contra outside
    simp [World.at, List.getElem?_eq_none (Nat.not_lt.mp outside)] at found
  have here : w.vectors[i] = some vector := by
    simpa [World.at, List.getElem?_eq_getElem inside] using found
  have split : w.vectors = w.vectors.take i ++ some vector :: w.vectors.drop (i + 1) := by
    rw [← here, ← List.drop_eq_getElem_cons inside, List.take_append_drop]
  rw [List.set_eq_take_append_cons_drop, if_pos inside, live, live]
  nth_rewrite 3 [split]
  classical
  refine List.perm_iff_count.mpr fun a => ?_
  simp only [List.flatMap_append, List.flatMap_cons, List.count_append, Option.elim_some]
  omega

/-- A call for one vector: how the references change, and where its elements go. -/
theorem Inv.changed (inv : Inv w) (found : w.at i = some vector) {after : Option (SVector τ α)} {given destroyed dropped : List α}
    (vectors : w'.vectors = w.vectors.set i after) (others : ∀ j, j ≠ i → w'.refs.count j = w.refs.count j)
    (stays : ∀ v, after = some v → v.refCount = w'.refs.count i ∧ ∃ contents, ∀ t, Holding t v 0 contents)
    (goes : after = none → i ∉ w'.refs) (gave : w'.given = w.given ++ given) (copied : w'.copied = w.copied)
    (took : w'.destroyed = w.destroyed ++ destroyed) (lost : w'.dropped = w.dropped ++ dropped)
    (flow : (contentsOf vector ++ given).Perm (destroyed ++ dropped ++ after.elim [] contentsOf)) : Inv w' := by
  have places := at_set found vectors
  refine ⟨⟨fun j v there => ?_, fun j => ?_, ?_⟩, fun j v there => ?_⟩
  · rw [places] at there
    by_cases same : j = i
    · rw [if_pos same] at there
      rw [same]
      exact (stays v there).1
    · rw [if_neg same] at there
      rw [others j same]
      exact inv.counted j v there
  · rw [places]
    by_cases same : j = i
    · rw [if_pos same, same]
      cases kept : after with
      | none => simpa using goes kept
      | some v =>
        obtain ⟨counted, contents, holding⟩ := stays v kept
        have positive := (holding v.lock.thread).refCount
        rw [counted] at positive
        simpa using List.count_pos_iff.mp positive
    · rw [if_neg same, ← inv.there, ← List.count_pos_iff, others j same, List.count_pos_iff]
  · have account := inv.account
    have moved := live_set after found
    rw [vectors, gave, copied, took, lost]
    classical
    rw [List.perm_iff_count] at account moved flow ⊢
    intro a
    have one := account a
    have two := moved a
    have three := flow a
    simp only [List.count_append] at one two three ⊢
    omega
  · rw [places] at there
    by_cases same : j = i
    · rw [if_pos same] at there
      exact (stays v there).2
    · rw [if_neg same] at there
      exact inv.holding j v there

/-- A new vector. -/
theorem Inv.added (inv : Inv w) (holding : ∀ t, Holding t after 0 contents) (single : after.refCount = 1)
    (vectors : w'.vectors = w.vectors ++ [some after]) (refs : w'.refs = w.vectors.length :: w.refs) (given : w'.given = w.given)
    (copied : w'.copied = w.copied ++ contents) (destroyed : w'.destroyed = w.destroyed) (dropped : w'.dropped = w.dropped) : Inv w' := by
  have places : ∀ j, w'.at j = if j = w.vectors.length then some after else w.at j := by
    intro j
    rw [World.at, vectors]
    by_cases same : j = w.vectors.length
    · simp [same]
    · rw [if_neg same, World.at, List.getElem?_append]
      by_cases inside : j < w.vectors.length
      · rw [if_pos inside]
      · rw [if_neg inside, List.getElem?_eq_none (Nat.not_lt.mp inside), List.getElem?_eq_none (by simp; omega)]
  have new : w.vectors.length ∉ w.refs := by
    rw [inv.there, World.at, List.getElem?_eq_none (Nat.le_refl _)]
    simp
  refine ⟨⟨fun j v there => ?_, fun j => ?_, ?_⟩, fun j v there => ?_⟩
  · rw [places] at there
    by_cases same : j = w.vectors.length
    · rw [if_pos same] at there
      cases there
      rw [single, refs, same, List.count_cons_self, List.count_eq_zero_of_not_mem new]
    · rw [if_neg same] at there
      rw [refs, List.count_cons_of_ne (Ne.symm same)]
      exact inv.counted j v there
  · rw [places, refs, List.mem_cons]
    by_cases same : j = w.vectors.length
    · simp [same]
    · rw [if_neg same]
      simpa [same] using inv.there j
  · have account := inv.account
    rw [vectors, given, copied, destroyed, dropped]
    have last : live (w.vectors ++ [some after]) = live w.vectors ++ contents := by
      simp [live, List.flatMap_append, contentsOf_held (holding after.lock.thread)]
    rw [last, ← List.append_assoc, ← List.append_assoc]
    exact account.append_right contents
  · rw [places] at there
    by_cases same : j = w.vectors.length
    · rw [if_pos same] at there
      cases there
      exact ⟨contents, holding⟩
    · rw [if_neg same] at there
      exact inv.holding j v there

/-- What a reference that is held gives. -/
theorem Inv.held (inv : Inv w) {allowed : SVector τ α → Prop} (held : Held w i allowed) :
    ∃ vector contents, w.at i = some vector ∧ allowed vector ∧ ∀ t, Holding t vector 0 contents := by
  obtain ⟨vector, found⟩ := Option.isSome_iff_exists.mp ((inv.there i).mp held.1)
  obtain ⟨contents, holding⟩ := inv.holding i vector found
  exact ⟨vector, contents, found, held.2 vector found, holding⟩

/-- A call that keeps the references of its vector. -/
theorem Inv.called (inv : Inv w) (found : w.at i = some vector) {given destroyed dropped : List α} (single : after.refCount = vector.refCount)
    (holding : ∀ t, Holding t after 0 contents) (vectors : w'.vectors = w.vectors.set i (some after)) (refs : w'.refs = w.refs)
    (gave : w'.given = w.given ++ given) (copied : w'.copied = w.copied) (took : w'.destroyed = w.destroyed ++ destroyed)
    (lost : w'.dropped = w.dropped ++ dropped) (flow : (contentsOf vector ++ given).Perm (destroyed ++ dropped ++ contents)) : Inv w' := by
  refine inv.changed found vectors (fun j _ => by rw [refs]) ?_ (by simp) gave copied took lost ?_
  · rintro v ⟨⟩
    rw [single, refs]
    exact ⟨inv.counted i vector found, contents, holding⟩
  · rw [Option.elim_some, contentsOf_held (holding after.lock.thread)]
    exact flow

theorem increase_inv (inv : Inv w) (found : w.at i = some vector) (vectors : w'.vectors = w.vectors.set i (some { vector with refCount := vector.refCount + 1 }))
    (refs : w'.refs = i :: w.refs) (given : w'.given = w.given) (copied : w'.copied = w.copied) (destroyed : w'.destroyed = w.destroyed)
    (dropped : w'.dropped = w.dropped) : Inv w' := by
  obtain ⟨contents, holding⟩ := inv.holding i vector found
  refine inv.changed found vectors (fun j apart => ?_) ?_ (by simp) (given.trans (List.append_nil _).symm) copied
    (destroyed.trans (List.append_nil _).symm) (dropped.trans (List.append_nil _).symm) ?_
  · rw [refs, List.count_cons_of_ne (Ne.symm apart)]
  · rintro v ⟨⟩
    rw [refs, List.count_cons_self, ← inv.counted i vector found]
    exact ⟨rfl, contents, fun t => { holding t with refCount := Nat.succ_pos _ }⟩
  · rw [List.append_nil]
    exact List.Perm.refl _

/-! ### The reference count in the other calls -/

theorem clone_refCount {thread : τ} {a b : SVector τ α} (cloned : vectorClone thread a = some b) : b.refCount = 1 := by
  simp only [vectorClone, vectorCreate, Option.bind_eq_bind, Option.bind_eq_some_iff] at cloned
  obtain ⟨-, -, -, -, new, ⟨-, -, ⟨⟩⟩, data, -, -, -, ⟨⟩⟩ := cloned
  rfl

variable [DecidableEq τ]

theorem lockDebug_refCount {whence prevLocker : Option String} (done : vectorLockDebug t vector whence = some (after, prevLocker)) :
    after.refCount = vector.refCount := by
  obtain ⟨out, -, shape⟩ := Option.map_eq_some_iff.mp done
  cases shape
  rfl

theorem unlockDebug_refCount {prevLocker : Option String} (done : vectorUnlockDebug t vector prevLocker = some after) :
    after.refCount = vector.refCount := by
  obtain ⟨lock, -, shape⟩ := Option.map_eq_some_iff.mp done
  cases shape
  rfl

theorem increaseCapacity_refCount (done : increaseCapacity t vector = some after) : after.refCount = vector.refCount := by
  simp only [increaseCapacity, Option.bind_eq_bind, Option.bind_eq_some_iff] at done
  obtain ⟨⟨locked, prevLocker⟩, first, -, -, -, -, -, -, last⟩ := done
  have behind := unlockDebug_refCount last
  have before := lockDebug_refCount first
  exact behind.trans before

theorem append_refCount {whence : String} {element : α} {index : Nat} (done : appendElement t vector whence element = some (index, after)) :
    after.refCount = vector.refCount := by
  simp only [appendElement, Option.bind_eq_bind, Option.bind_eq_some_iff] at done
  obtain ⟨⟨locked, prevLocker⟩, first, grown, growth, -, -, data, -, unlocked, last, shape⟩ := done
  cases shape
  have behind := unlockDebug_refCount last
  have before := lockDebug_refCount first
  have middle : grown.refCount = locked.refCount := by
    split at growth
    · exact increaseCapacity_refCount growth
    · cases growth
      rfl
  exact behind.trans (middle.trans before)

theorem set_refCount {index : Nat} {element : α} (done : vectorSetElementAt t vector index element = some after) :
    after.refCount = vector.refCount := by
  simp only [vectorSetElementAt, Option.bind_eq_bind, Option.bind_eq_some_iff] at done
  obtain ⟨⟨locked, prevLocker⟩, first, -, -, grown, growth, data, -, last⟩ := done
  have behind := unlockDebug_refCount last
  have before := lockDebug_refCount first
  have middle : grown.refCount = locked.refCount := by
    split at growth
    · obtain ⟨more, enlarged, rfl⟩ := Option.map_eq_some_iff.mp growth
      have kept : more.refCount = locked.refCount := by
        split at enlarged
        · exact increaseCapacity_refCount enlarged
        · cases enlarged
          rfl
      exact kept
    · cases growth
      rfl
  exact behind.trans (middle.trans before)

/-! ### Calls -/

theorem decrease_inv (inv : Inv w) (held : Held w i fun _ => True) : ∃ w', step w (.refcountDecrease i) = some w' ∧ Inv w' := by
  obtain ⟨vector, contents, found, -, holding⟩ := inv.held held
  have counted := inv.counted i vector found
  have positive := (holding vector.lock.thread).refCount
  have read := elements_held (holding vector.lock.thread)
  have own := contentsOf_held (holding vector.lock.thread)
  have others : ∀ j, j ≠ i → (w.refs.erase i).count j = w.refs.count j := fun j apart => List.count_erase_of_ne apart
  have mine : (w.refs.erase i).count i = w.refs.count i - 1 := List.count_erase_self
  by_cases last : vector.refCount - 1 = 0
  · have decreased : vectorRefcountDecrease vector = some (if vector.destroyFunc then contents else [], none) := by
      simp only [vectorRefcountDecrease, vectorDestroy, assert_true positive, Option.bind_eq_bind, Option.bind_some, last, if_true, read]
      cases vector.destroyFunc <;> rfl
    refine ⟨_, by simp only [step, found, decreased, Option.bind_eq_bind, Option.bind_some]; rfl, ?_⟩
    refine inv.changed found rfl others (by simp) (fun _ => ?_) (List.append_nil _).symm rfl rfl rfl ?_
    · rw [← List.count_eq_zero, mine, ← counted]
      exact last
    · cases destroys : vector.destroyFunc <;> simp [own]
  · have decreased : vectorRefcountDecrease vector = some ([], some { vector with refCount := vector.refCount - 1 }) := by
      simp only [vectorRefcountDecrease, assert_true positive, Option.bind_eq_bind, Option.bind_some, last, if_false]
    refine ⟨_, by simp only [step, found, decreased, Option.bind_eq_bind, Option.bind_some]; rfl, ?_⟩
    refine inv.changed found rfl others ?_ (by simp) (List.append_nil _).symm rfl rfl rfl ?_
    · rintro v ⟨⟩
      refine ⟨?_, contents, fun t => { holding t with refCount := Nat.pos_of_ne_zero last }⟩
      rw [mine, ← counted]
    · rw [List.append_nil]
      exact List.Perm.refl _

/-- An element over another. -/
theorem set_flow {index : Nat} (inside : index < contents.length) (element : α) :
    (contents ++ [element]).Perm ([contents[index]] ++ contents.set index element) := by
  have split : contents = contents.take index ++ contents[index] :: contents.drop (index + 1) := by
    rw [← List.drop_eq_getElem_cons inside, List.take_append_drop]
  rw [List.set_eq_take_append_cons_drop, if_pos inside]
  nth_rewrite 1 [split]
  classical
  refine List.perm_iff_count.mpr fun a => ?_
  simp only [List.count_append, List.count_cons, List.count_nil]
  omega

theorem setElementAt_inv (inv : Inv w) (t : τ) {index : Nat} (element : α) (held : Held w i fun vector =>
    index < vector.elementCount ∧ Fits vector False ∨ index = vector.elementCount ∧ Fits vector True) :
    ∃ w', step w (.setElementAt t i index element) = some w' ∧ Inv w' := by
  obtain ⟨vector, contents, found, allowed, holding⟩ := inv.held held
  have own := contentsOf_held (holding t)
  rw [(holding t).count] at allowed
  rcases allowed with ⟨inside, fits⟩ | ⟨rfl, fits⟩
  · obtain ⟨after, done, kept, -⟩ := set_holding (holding t) fits inside element
    refine ⟨_, by simp only [step, found, done, Option.bind_eq_bind, Option.bind_some]; rfl, ?_⟩
    refine inv.called found (set_refCount done) (Holding.everywhere kept) rfl rfl rfl rfl (List.append_nil _).symm rfl ?_
    rw [own, List.getElem?_eq_getElem inside]
    exact set_flow inside element
  · obtain ⟨after, done, kept, -, -⟩ := set_end_holding (holding t) fits element
    refine ⟨_, by simp only [step, found, done, Option.bind_eq_bind, Option.bind_some]; rfl, ?_⟩
    refine inv.called found (set_refCount done) (Holding.everywhere kept) rfl rfl rfl rfl (List.append_nil _).symm rfl ?_
    rw [own, List.getElem?_eq_none (Nat.le_refl _)]
    exact List.Perm.refl _

theorem step_total {act : Act τ α} (inv : Inv w) (permitted : Permitted w act) : ∃ w', step w act = some w' ∧ Inv w' := by
  cases act with
  | create thread elementSize initialCapacity capacityIncrement destroyFunc =>
    obtain ⟨positive, bytes⟩ := permitted
    refine ⟨_, by simp only [step, vectorCreate, assert_true bytes, Option.bind_eq_bind, Option.bind_some]; rfl, ?_⟩
    refine inv.added (fun t => create_holding t thread elementSize initialCapacity destroyFunc positive) rfl rfl rfl rfl ?_ rfl rfl
    exact (List.append_nil _).symm
  | clone thread i =>
    obtain ⟨a, contents, found, fits, holding⟩ := inv.held permitted
    obtain ⟨b, cloned, kept, -⟩ := clone_holding (holding thread) thread fits
    refine ⟨_, by simp only [step, found, cloned, Option.bind_eq_bind, Option.bind_some]; rfl, ?_⟩
    exact inv.added (Holding.everywhere kept) (clone_refCount cloned) rfl rfl rfl (by rw [contentsOf_held kept]) rfl rfl
  | refcountIncrease i =>
    obtain ⟨vector, contents, found, fits, -⟩ := inv.held permitted
    refine ⟨_, by simp only [step, found, vectorRefcountIncrease, assert_true fits, Option.bind_eq_bind, Option.bind_some]; rfl, ?_⟩
    exact increase_inv inv found rfl rfl rfl rfl rfl rfl
  | refcountDecrease i => exact decrease_inv inv permitted
  | append t i element =>
    obtain ⟨vector, contents, found, fits, holding⟩ := inv.held permitted
    obtain ⟨after, done, kept, -⟩ := append_holding (holding t) fits "vectorAppend" element
    refine ⟨_, by simp only [step, found, vectorAppend, done, Option.bind_eq_bind, Option.bind_some]; rfl, ?_⟩
    refine inv.called found (append_refCount done) (Holding.everywhere kept) rfl rfl rfl rfl (List.append_nil _).symm (List.append_nil _).symm ?_
    rw [contentsOf_held (holding t)]
    exact List.Perm.refl _
  | setElementAt t i index element => exact setElementAt_inv inv t element permitted
  | removeLastElement i =>
    obtain ⟨vector, contents, found, counted, holding⟩ := inv.held permitted
    have own := contentsOf_held (holding vector.lock.thread)
    have more : contents ≠ [] := by
      rintro rfl
      exact counted (holding vector.lock.thread).count
    have done := (removeLast_holding (holding vector.lock.thread) more).1
    refine ⟨_, by simp only [step, found, done, Option.bind_eq_bind, Option.bind_some]; rfl, ?_⟩
    refine inv.called found (show ({ vector with elementCount := vector.elementCount - 1 } : SVector τ α).refCount = vector.refCount from rfl)
      (fun t => (removeLast_holding (holding t) more).2) rfl rfl (List.append_nil _).symm rfl
      (List.append_nil _).symm rfl ?_
    rw [own, List.getLast?_eq_some_getLast more]
    nth_rewrite 1 [← List.dropLast_append_getLast more]
    simp
  | removeAll i =>
    obtain ⟨vector, contents, found, -, holding⟩ := inv.held permitted
    have own := contentsOf_held (holding vector.lock.thread)
    have done := (removeAll_holding (holding vector.lock.thread)).1
    refine ⟨_, by simp only [step, found, done, Option.bind_eq_bind, Option.bind_some]; rfl, ?_⟩
    refine inv.called found (show ({ vector with elementCount := 0 } : SVector τ α).refCount = vector.refCount from rfl)
      (fun t => (removeAll_holding (holding t)).2) rfl rfl (List.append_nil _).symm rfl rfl rfl ?_
    rw [own]
    cases vector.destroyFunc <;> simp

end

end VoxiUtil.VectorLife
