import VoxiUtil.CString
import VoxiUtil.HashSet

/-!
The word map of `wordMap.c`: entries of a name and a number, kept in one or two hash
tables. `none` is a failed assertion.
-/
namespace VoxiUtil.WordMap
open VoxiUtil.CString VoxiUtil.Hash VoxiUtil.HashSet

/-- `sEntry`, with the number of its block. -/
structure Entry where
  address : Nat
  name : Text
  number : UInt32
deriving DecidableEq

inductive WordMapType
  | byName
  | byNumber
  | byNameNumber
deriving DecidableEq

/-- The type has `WORDMAPMASK_BYNAME`. -/
def WordMapType.hasName : WordMapType → Bool
  | .byName | .byNameNumber => true
  | .byNumber => false

/-- The type has `WORDMAPMASK_BYNUMBER`. -/
def WordMapType.hasNumber : WordMapType → Bool
  | .byNumber | .byNameNumber => true
  | .byName => false

/-- `HashString` of `hash.c`, where `char` is signed. -/
def hashString (string : Text) : Int32 := string.foldl (fun hashValue c => (hashValue <<< 4) ^^^ c.toInt8.toInt32) 0

def compareEntryNames (pme1 pme2 : Entry) : Int32 := strcmp pme1.name pme2.name

def compareEntryNumbers (pme1 pme2 : Entry) : Int32 := (pme2.number - pme1.number).toInt32

def hashEntryName (e : Entry) : Int32 := hashString e.name

def hashEntryNumber (e : Entry) : Int32 := e.number.toInt32

def nameFuncs (size : Nat) (sized : 0 < size) : Funcs Entry := ⟨size, sized, hashEntryName, compareEntryNames, false⟩

def numberFuncs (size : Nat) (sized : 0 < size) : Funcs Entry := ⟨size, sized, hashEntryNumber, compareEntryNumbers, false⟩

/-- `sWordMap`. A table that the type does not have stays empty here. `allocated` counts
    the entries that were allocated; no block is used twice. -/
structure SWordMap where
  name : Text
  type : WordMapType
  size : Nat
  sized : 0 < size
  byName : Hasht (nameFuncs size sized)
  byNumber : Hasht (numberFuncs size sized)
  allocated : Nat

/-- The size is converted to unsigned, and is asserted not to be 0. -/
def wordMapCreate2 (name : Text) (type : WordMapType) (hashTableSize : Int32) : Option SWordMap :=
  if sized : 0 < hashTableSize.toUInt32.toNat then
    some ⟨name, type, hashTableSize.toUInt32.toNat, sized, hashCreateTable _, hashCreateTable _, 0⟩
  else none

def wordMapCreate (name : Text) (type : WordMapType) : Option SWordMap := wordMapCreate2 name type 1024

def wordMapAdd (map : SWordMap) (name : Text) (number : Int32) : SWordMap :=
  let newEntry : Entry := ⟨map.allocated, name, number.toUInt32⟩
  { map with
    byName := if map.type.hasName then (hashAdd map.byName newEntry (some map.allocated)).1 else map.byName
    byNumber := if map.type.hasNumber then (hashAdd map.byNumber newEntry (some map.allocated)).1 else map.byNumber
    allocated := map.allocated + 1 }

/-- The template to look for a name; its other fields are not set and not read. -/
def nameTemplate (name : Text) : Entry := ⟨0, name, 0⟩

def numberTemplate (number : Int32) : Entry := ⟨0, [], number.toUInt32⟩

def wordMapFindByName (map : SWordMap) (name : Text) : Int32 :=
  if map.type.hasName then
    match hashFind map.byName (nameTemplate name) with
    | none => -1
    | some entry => entry.number.toInt32
  else -1

/-- The name, or null; the first `none` is the failed assertion. -/
def wordMapFindByNumber (map : SWordMap) (number : Int32) : Option (Option Text) :=
  if map.type.hasNumber then some ((hashFind map.byNumber (numberTemplate number)).map Entry.name) else none

def wordMapGetNoElements (map : SWordMap) : Int :=
  if map.type.hasNumber then hashGetElementCount map.byNumber else hashGetElementCount map.byName

/-- `HashDelete`, whose result is asserted to be 1. -/
def deleteOne {fs : Funcs Entry} (ht : Hasht fs) (entry : Entry) : Option (Hasht fs) :=
  (hashDelete ht entry).bind fun result => if result.2.1 = 1 then some result.1 else none

def wordMapDeleteByNumber (map : SWordMap) (number : Int32) : Option SWordMap :=
  if map.type.hasNumber then
    (hashFind map.byNumber (numberTemplate number)).bind fun entry =>
      (deleteOne map.byNumber entry).bind fun byNumber =>
        if map.type.hasName then
          (deleteOne map.byName entry).map fun byName => { map with byNumber := byNumber, byName := byName }
        else some { map with byNumber := byNumber }
  else none

def wordMapDeleteByName (map : SWordMap) (name : Text) : Option SWordMap :=
  if map.type.hasName then
    (hashFind map.byName (nameTemplate name)).bind fun entry =>
      (deleteOne map.byName entry).bind fun byName =>
        if map.type.hasNumber then
          (deleteOne map.byNumber entry).map fun byNumber => { map with byName := byName, byNumber := byNumber }
        else some { map with byName := byName }
  else none

section
variable {size : Nat} {sized : 0 < size}

theorem sameName_iff (a b : Entry) : (nameFuncs size sized).compData a b = 0 ↔ a.name = b.name := strcmp_eq_zero _ _

theorem sameNumber_iff (a b : Entry) : (numberFuncs size sized).compData a b = 0 ↔ a.number = b.number := by
  have turned : (b.number - a.number).toInt32 = 0 ↔ b.number - a.number = 0 := by
    constructor
    · intro zero
      have back : (b.number - a.number).toInt32.toUInt32 = (0 : Int32).toUInt32 := congrArg Int32.toUInt32 zero
      rwa [UInt32.toUInt32_toInt32] at back
    · intro zero
      rw [zero]
      rfl
  change (b.number - a.number).toInt32 = 0 ↔ _
  rw [turned, UInt32.sub_eq_iff_eq_add, UInt32.zero_add]
  exact eq_comm

theorem lawfulName (size : Nat) (sized : 0 < size) : Lawful (nameFuncs size sized) where
  refl a := (sameName_iff a a).mpr rfl
  symm a b same := (sameName_iff b a).mpr ((sameName_iff a b).mp same).symm
  trans a b c first second := (sameName_iff a c).mpr (((sameName_iff a b).mp first).trans ((sameName_iff b c).mp second))
  hash a b same := congrArg hashString ((sameName_iff a b).mp same)

theorem lawfulNumber (size : Nat) (sized : 0 < size) : Lawful (numberFuncs size sized) where
  refl a := (sameNumber_iff a a).mpr rfl
  symm a b same := (sameNumber_iff b a).mpr ((sameNumber_iff a b).mp same).symm
  trans a b c first second :=
    (sameNumber_iff a c).mpr (((sameNumber_iff a b).mp first).trans ((sameNumber_iff b c).mp second))
  hash a b same := congrArg UInt32.toInt32 ((sameNumber_iff a b).mp same)

end

end VoxiUtil.WordMap
