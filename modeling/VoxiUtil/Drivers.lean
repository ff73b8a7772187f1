import Mathlib.Logic.Function.Basic
import VoxiUtil.Err
import VoxiUtil.Runs

/-!
The drivers of `driver.c`, in the shared libraries that `shlib.c` has from the dynamic
loader. What is looked up in a library that is not open has no outcome.
-/
namespace VoxiUtil.Drivers
open VoxiUtil.CString VoxiUtil.Runs
open VoxiUtil.Err (Error errNew)

/-! ### The dynamic loader -/

/-- What there is to load: the library behind a file name (two names may lead to one), the
    address of a function in a library, the messages for what is missing, and what the
    function at an address does as `getAPIVersion`. -/
structure Loader where
  library : Text → Option Nat
  function : Nat → Text → Option Nat
  noLibrary : Text → Text
  noFunction : Nat → Text → Text
  getAPIVersion : Nat → Except Error Int32

/-- How often each library is open, and what `dlerror` has to tell. -/
structure Dl where
  opened : Nat → Nat
  message : Option Text

def Dl.once (dl : Dl) (shlib : Nat) : Dl := { dl with opened := Function.update dl.opened shlib (dl.opened shlib + 1) }

def dlopen (l : Loader) (dl : Dl) (filename : Text) : Option Nat × Dl :=
  match l.library filename with
  | some shlib => (some shlib, dl.once shlib)
  | none => (none, { dl with message := some (l.noLibrary filename) })

def dlclose (dl : Dl) (shlib : Nat) : Int × Dl :=
  if 0 < dl.opened shlib then (0, { dl with opened := Function.update dl.opened shlib (dl.opened shlib - 1) }) else (-1, dl)

/-- A null pointer and a message for a function that is missing. -/
def dlsym (l : Loader) (dl : Dl) (shlib : Nat) (name : Text) : Option (Nat × Dl) := do
  assert (0 < dl.opened shlib)
  match l.function shlib name with
  | some func => some (func, dl)
  | none => some (0, { dl with message := some (l.noFunction shlib name) })

def dlerror (dl : Dl) : Option Text × Dl := (dl.message, { dl with message := none })

/-! ### `shlib.c` -/

/-- What `printf` makes of a string that may be null. -/
def orNull (string : Option Text) : Text := string.getD (lit "(null)")

def shlibOpen (l : Loader) (dl : Dl) (filename : Text) : Except Error Nat × Dl :=
  match dlopen l dl filename with
  | (some shlib, dl) => (.ok shlib, dl)
  | (none, dl) =>
    let (message, dl) := dlerror dl
    (.error (errNew .shlib 0 none (lit "dlerror '" ++ orNull message ++ lit "' opening file '" ++ filename ++ lit "'")), dl)

def shlibClose (dl : Dl) (shlib : Nat) : Option (Option Error × Dl) := do
  let (err, dl) := dlclose dl shlib
  assert (err = 0)
  return (none, dl)

/-- The error and what the pointer is set to. -/
def shlibFindFunc (l : Loader) (dl : Dl) (shlib : Nat) (name : Text) : Option (Option Error × Nat × Dl) := do
  let (func, dl) ← dlsym l dl shlib name
  let (dlerr, dl) := dlerror dl
  return (dlerr.map fun dlerr => errNew .shlib 0 none (lit "shlib error '" ++ dlerr ++ lit "' finding the function '" ++ name ++ lit "'."),
    func, dl)

/-! ### `driver.c` -/

def errDriverUnspecified : Int32 := 0

/-- `OPEN_DRIVER_FAIL_2`. -/
def openDriverFail2 (dl : Dl) (shlib : Nat) (error : Error) : Option (Except Error (Int32 × Nat) × Dl) := do
  let (_, dl) ← shlibClose dl shlib
  return (.error error, dl)

/-- The version and the library. The error of the driver's own function is dropped. -/
def driverOpen (l : Loader) (dl : Dl) (name : Text) : Option (Except Error (Int32 × Nat) × Dl) :=
  match shlibOpen l dl name with
  | (.error error, dl) =>
    some (.error (errNew .driver errDriverUnspecified (some error) (lit "Failed to open driver shared library/DLL '" ++ name ++ lit "'")), dl)
  | (.ok shlib, dl) => do
    let (error, getAPIVersionFunc, dl) ← shlibFindFunc l dl shlib (lit "getAPIVersion")
    match error with
    | some error =>
      openDriverFail2 dl shlib (errNew .driver errDriverUnspecified (some error) (lit "Driver did not have 'getAPIVersion' function"))
    | none =>
      assert (getAPIVersionFunc ≠ 0)
      match l.getAPIVersion getAPIVersionFunc with
      | .error _ => openDriverFail2 dl shlib (errNew .driver errDriverUnspecified none (lit "Failed to get driver API Version."))
      | .ok apiVersion => some (.ok (apiVersion, shlib), dl)

def driverClose (dl : Dl) (shlib : Nat) : Option (Option Error × Dl) := do
  let (error, dl) ← shlibClose dl shlib
  return (error.map fun error => errNew .driver errDriverUnspecified (some error) (lit "Failed to close the driver's shared library"), dl)

structure SDriverFunctionInfo where
  name : Text
  offset : Nat

/-- A driver struct, by offsets that are apart by whole pointers: what was written there. -/
abbrev DriverStruct := Nat → Option Nat

/-- The loop over the functions that are left. -/
def driverLoadFunctions (l : Loader) (dl : Dl) (shlib : Nat) :
    List SDriverFunctionInfo → DriverStruct → Option (Option Error × DriverStruct × Dl)
  | [], driverStruct => some (none, driverStruct, dl)
  | info :: rest, driverStruct => do
    let (error, func, dl) ← shlibFindFunc l dl shlib info.name
    let driverStruct := Function.update driverStruct info.offset (some func)
    match error with
    | some error =>
      return (some (errNew .driver errDriverUnspecified (some error) (lit "Driver file does not have function '" ++ info.name ++ lit "' ")),
        driverStruct, dl)
    | none => driverLoadFunctions l dl shlib rest driverStruct

/-! ### The users of drivers -/

structure Driver where
  shlib : Nat
  apiVersion : Int32
  driverStruct : DriverStruct

/-- A driver that was closed is none. The error is what the last call returned. -/
structure World where
  dl : Dl
  drivers : List (Option Driver)
  error : Option Error

def start : World := ⟨⟨fun _ => 0, none⟩, [], none⟩

def World.driver (w : World) (i : Nat) : Option Driver := w.drivers[i]?.join

inductive Act
  | opens (name : Text)
  | loads (i : Nat) (driverFunctions : List SDriverFunctionInfo)
  | closes (i : Nat)

def step (l : Loader) (w : World) : Act → Option World
  | .opens name => do
    let (result, dl) ← driverOpen l w.dl name
    match result with
    | .error error => return { w with dl := dl, error := some error }
    | .ok (apiVersion, shlib) => return ⟨dl, w.drivers ++ [some ⟨shlib, apiVersion, fun _ => none⟩], none⟩
  | .loads i driverFunctions => do
    let driver ← w.driver i
    let (error, driverStruct, dl) ← driverLoadFunctions l w.dl driver.shlib driverFunctions driver.driverStruct
    return ⟨dl, w.drivers.set i (some { driver with driverStruct := driverStruct }), error⟩
  | .closes i => do
    let driver ← w.driver i
    let (error, dl) ← driverClose w.dl driver.shlib
    return ⟨dl, w.drivers.set i none, error⟩

/-- Only drivers that are open are used, and no library has a `getAPIVersion` at the null pointer. -/
def Permitted (l : Loader) (w : World) : Act → Prop
  | .opens name => ∀ shlib, l.library name = some shlib → l.function shlib (lit "getAPIVersion") ≠ some 0
  | .loads i _ => (w.driver i).isSome
  | .closes i => (w.driver i).isSome

/-- The version and the library of the driver that a name leads to. -/
def opensAs (l : Loader) (name : Text) : Option (Int32 × Nat) := do
  let shlib ← l.library name
  let func ← l.function shlib (lit "getAPIVersion")
  match l.getAPIVersion func with
  | .ok apiVersion => some (apiVersion, shlib)
  | .error _ => none

def missing (l : Loader) (shlib : Nat) (info : SDriverFunctionInfo) : Bool := (l.function shlib info.name).isNone

/-- What is said of a function that is missing. -/
def loadError (l : Loader) (shlib : Nat) (info : SDriverFunctionInfo) : Error :=
  errNew .driver errDriverUnspecified
    (some (errNew .shlib 0 none
      (lit "shlib error '" ++ l.noFunction shlib info.name ++ lit "' finding the function '" ++ info.name ++ lit "'.")))
    (lit "Driver file does not have function '" ++ info.name ++ lit "' ")

/-- What a load makes of a driver struct. -/
structure Loads (l : Loader) (shlib : Nat) (driverFunctions : List SDriverFunctionInfo) (before after : DriverStruct) : Prop where
  others : ∀ offset, (∀ info ∈ driverFunctions, info.offset ≠ offset) → after offset = before offset
  loaded : driverFunctions.find? (missing l shlib) = none → (driverFunctions.map SDriverFunctionInfo.offset).Nodup →
    ∀ info ∈ driverFunctions, after info.offset = l.function shlib info.name
  owned : ∀ offset func, after offset = some func → before offset = some func ∨ func = 0 ∨ ∃ name, l.function shlib name = some func

/-- What a call does to the drivers, and what it returns. -/
def Contract (l : Loader) (w : World) (act : Act) (after : World) : Prop :=
  match act with
  | .opens name =>
    match opensAs l name with
    | some (apiVersion, shlib) => after.error = none ∧ after.drivers = w.drivers ++ [some ⟨shlib, apiVersion, fun _ => none⟩]
    | none => after.error.isSome ∧ after.drivers = w.drivers ∧ after.dl = w.dl
  | .loads i driverFunctions => ∃ driver driverStruct, w.driver i = some driver ∧
      after.error = (driverFunctions.find? (missing l driver.shlib)).map (loadError l driver.shlib) ∧
      after.drivers = w.drivers.set i (some { driver with driverStruct := driverStruct }) ∧ after.dl = w.dl ∧
      Loads l driver.shlib driverFunctions driver.driverStruct driverStruct
  | .closes i => after.error = none ∧ after.drivers = w.drivers.set i none

/-- Whether an open driver is in a library. -/
def uses (shlib : Nat) (driver : Option Driver) : Bool := driver.any fun driver => driver.shlib == shlib

/-- A library is open as often as drivers in it are, and every pointer in the struct of an
    open driver is null or leads into its library. -/
structure Held (l : Loader) (w : World) : Prop where
  opened : ∀ shlib, w.dl.opened shlib = w.drivers.countP (uses shlib)
  silent : w.dl.message = none
  owned : ∀ driver, some driver ∈ w.drivers → ∀ offset func, driver.driverStruct offset = some func →
    func = 0 ∨ ∃ name, l.function driver.shlib name = some func

section
variable {l : Loader} {dl : Dl} {shlib : Nat} {name : Text}

/-- A lookup leaves no message behind. -/
theorem shlibFindFunc_eq (isOpen : 0 < dl.opened shlib) (silent : dl.message = none) :
    shlibFindFunc l dl shlib name = some (match l.function shlib name with
      | some func => (none, func, dl)
      | none => (some (errNew .shlib 0 none
          (lit "shlib error '" ++ l.noFunction shlib name ++ lit "' finding the function '" ++ name ++ lit "'.")), 0, dl)) := by
  obtain ⟨opened, message⟩ := dl
  cases silent
  cases found : l.function shlib name with
  | none => simp [shlibFindFunc, dlsym, dlerror, isOpen, found]
  | some func => simp [shlibFindFunc, dlsym, dlerror, isOpen, found]

theorem shlibClose_eq (isOpen : 0 < dl.opened shlib) :
    shlibClose dl shlib = some (none, { dl with opened := Function.update dl.opened shlib (dl.opened shlib - 1) }) := by
  simp [shlibClose, dlclose, isOpen]

theorem load_loads (isOpen : 0 < dl.opened shlib) (silent : dl.message = none) (driverFunctions : List SDriverFunctionInfo) :
    ∀ before : DriverStruct, ∃ after,
      driverLoadFunctions l dl shlib driverFunctions before =
        some ((driverFunctions.find? (missing l shlib)).map (loadError l shlib), after, dl) ∧
      Loads l shlib driverFunctions before after := by
  induction driverFunctions with
  | nil =>
    intro before
    exact ⟨before, rfl, fun _ _ => rfl, nofun, fun _ _ same => .inl same⟩
  | cons info rest ih =>
    intro before
    rw [driverLoadFunctions, shlibFindFunc_eq isOpen silent]
    cases found : l.function shlib info.name with
    | none =>
      have first : missing l shlib info = true := by rw [missing, found]; rfl
      refine ⟨Function.update before info.offset (some 0), ?_, ?_, ?_, ?_⟩
      · rw [List.find?_cons_of_pos first]
        rfl
      · intro offset apart
        exact Function.update_of_ne (apart info List.mem_cons_self).symm _ _
      · intro all
        rw [List.find?_cons_of_pos first] at all
        cases all
      · intro offset func has
        by_cases here : offset = info.offset
        · rw [here, Function.update_self] at has
          cases has
          exact .inr (.inl rfl)
        · rw [Function.update_of_ne here] at has
          exact .inl has
    | some func =>
      have present : ¬ missing l shlib info = true := by rw [missing, found]; nofun
      obtain ⟨after, ran, loads⟩ := ih (Function.update before info.offset (some func))
      refine ⟨after, ?_, ?_, ?_, ?_⟩
      · rw [List.find?_cons_of_neg present]
        exact ran
      · intro offset apart
        rw [loads.others offset fun info member => apart info (List.mem_cons_of_mem _ member)]
        exact Function.update_of_ne (apart info List.mem_cons_self).symm _ _
      · intro all distinct other member
        rw [List.find?_cons_of_neg present] at all
        rw [List.map_cons, List.nodup_cons] at distinct
        rcases List.mem_cons.mp member with rfl | later
        · rw [found, loads.others other.offset, Function.update_self]
          intro info member same
          exact distinct.1 (List.mem_map.mpr ⟨info, member, same⟩)
        · exact loads.loaded all distinct.2 other later
      · intro offset value has
        rcases loads.owned offset value has with earlier | owned
        · by_cases here : offset = info.offset
          · rw [here, Function.update_self] at earlier
            cases earlier
            exact .inr (.inr ⟨info.name, found⟩)
          · rw [Function.update_of_ne here] at earlier
            exact .inl earlier
        · exact .inr owned

theorem once_opened : (dl.once shlib).opened shlib = dl.opened shlib + 1 := Function.update_self _ _ _

theorem once_isOpen : 0 < (dl.once shlib).opened shlib := by
  rw [once_opened]
  exact Nat.succ_pos _

/-- A library that is opened and closed again is open as often as it was. -/
theorem shlibClose_once : shlibClose (dl.once shlib) shlib = some (none, dl) := by
  have same : Function.update (dl.once shlib).opened shlib ((dl.once shlib).opened shlib - 1) = dl.opened := by
    rw [once_opened, Nat.add_sub_cancel]
    exact (Function.update_idem _ _ _).trans (Function.update_eq_self _ _)
  rw [shlibClose_eq once_isOpen, same]
  rfl

theorem openDriverFail2_once (error : Error) : openDriverFail2 (dl.once shlib) shlib error = some (.error error, dl) := by
  rw [openDriverFail2, shlibClose_once]
  rfl

/-- A driver is opened where there is one, and otherwise its library is left as it was. -/
theorem driverOpen_eq (silent : dl.message = none)
    (callable : ∀ shlib, l.library name = some shlib → l.function shlib (lit "getAPIVersion") ≠ some 0) :
    ∃ error, driverOpen l dl name = some (match opensAs l name with
      | some (apiVersion, shlib) => (.ok (apiVersion, shlib), dl.once shlib)
      | none => (.error error, dl)) := by
  cases there : l.library name with
  | none =>
    obtain ⟨opened, message⟩ := dl
    cases silent
    simp only [driverOpen, shlibOpen, dlopen, dlerror, opensAs, there, Option.bind_eq_bind, Option.bind_none]
    exact ⟨_, rfl⟩
  | some shlib =>
    have looked := @shlibFindFunc_eq l (dl.once shlib) shlib (lit "getAPIVersion") once_isOpen silent
    cases found : l.function shlib (lit "getAPIVersion") with
    | none =>
      rw [found] at looked
      simp only [driverOpen, shlibOpen, dlopen, opensAs, there, looked, found, Option.bind_eq_bind, Option.bind_none, Option.bind_some]
      exact ⟨_, openDriverFail2_once _⟩
    | some func =>
      have called : func ≠ 0 := by
        rintro rfl
        exact callable shlib there found
      rw [found] at looked
      cases reported : l.getAPIVersion func with
      | error dropped =>
        simp only [driverOpen, shlibOpen, dlopen, opensAs, there, looked, found, reported, Option.bind_eq_bind, Option.bind_some,
          assert_true called]
        exact ⟨_, openDriverFail2_once _⟩
      | ok apiVersion =>
        refine ⟨errNew .driver errDriverUnspecified none [], ?_⟩
        simp [driverOpen, shlibOpen, dlopen, opensAs, there, looked, found, called, reported]

end

/-! ### Calls and runs -/

section
variable {l : Loader} {w : World}

theorem driver_eq_some {i : Nat} {driver : Driver} : w.driver i = some driver ↔ w.drivers[i]? = some (some driver) := by
  rw [World.driver, Option.join_eq_some_iff]

theorem uses_some {shlib : Nat} {driver : Driver} : uses shlib (some driver) = true ↔ driver.shlib = shlib := by
  rw [uses, Option.any_some, beq_iff_eq]

/-- What the users of a library are when one driver becomes something else. -/
theorem countP_uses_set {drivers : List (Option Driver)} {i : Nat} {driver : Driver} (there : drivers[i]? = some (some driver))
    (new : Option Driver) (shlib : Nat) :
    (drivers.set i new).countP (uses shlib) + (if driver.shlib = shlib then 1 else 0) =
      drivers.countP (uses shlib) + (if uses shlib new = true then 1 else 0) := by
  obtain ⟨inside, same⟩ := List.getElem?_eq_some_iff.mp there
  have atLeast : (if driver.shlib = shlib then 1 else 0) ≤ drivers.countP (uses shlib) := by
    split
    · rename_i used
      exact List.countP_pos_iff.mpr ⟨some driver, List.mem_of_getElem? there, uses_some.mpr used⟩
    · exact Nat.zero_le _
  simp only [List.countP_set inside, same, uses_some]
  omega

/-- The library of an open driver is open. -/
theorem driver_isOpen (held : Held l w) {i : Nat} {driver : Driver} (found : w.driver i = some driver) : 0 < w.dl.opened driver.shlib := by
  rw [held.opened]
  exact List.countP_pos_iff.mpr ⟨some driver, List.mem_of_getElem? (driver_eq_some.mp found), uses_some.mpr rfl⟩

theorem opens_held (held : Held l w) {name : Text} (permitted : Permitted l w (.opens name)) :
    ∃ after, step l w (.opens name) = some after ∧ Held l after ∧ Contract l w (.opens name) after := by
  obtain ⟨error, ran⟩ := driverOpen_eq held.silent permitted
  rw [step, ran]
  cases found : opensAs l name with
  | none =>
    refine ⟨{ w with error := some error }, rfl, ⟨held.opened, held.silent, held.owned⟩, ?_⟩
    rw [Contract, found]
    exact ⟨rfl, rfl, rfl⟩
  | some driver =>
    obtain ⟨apiVersion, shlib⟩ := driver
    refine ⟨⟨w.dl.once shlib, w.drivers ++ [some ⟨shlib, apiVersion, fun _ => none⟩], none⟩, rfl, ⟨?_, held.silent, ?_⟩, ?_⟩
    · intro other
      simp only [List.countP_append, ← held.opened other, List.countP_singleton, uses_some]
      by_cases same : shlib = other
      · rw [if_pos same, ← same]
        exact once_opened
      · rw [if_neg same]
        exact Function.update_of_ne (Ne.symm same) _ _
    · intro driver member
      rcases List.mem_append.mp member with earlier | new
      · exact held.owned driver earlier
      · cases List.mem_singleton.mp new
        nofun
    · rw [Contract, found]
      exact ⟨rfl, rfl⟩

theorem loads_held (held : Held l w) {i : Nat} {driverFunctions : List SDriverFunctionInfo}
    (permitted : Permitted l w (.loads i driverFunctions)) :
    ∃ after, step l w (.loads i driverFunctions) = some after ∧ Held l after ∧ Contract l w (.loads i driverFunctions) after := by
  obtain ⟨driver, found⟩ := Option.isSome_iff_exists.mp permitted
  have there := driver_eq_some.mp found
  have isOpen := driver_isOpen held found
  obtain ⟨after, ran, loads⟩ := load_loads (l := l) isOpen held.silent driverFunctions driver.driverStruct
  refine ⟨⟨w.dl, w.drivers.set i (some { driver with driverStruct := after }),
    (driverFunctions.find? (missing l driver.shlib)).map (loadError l driver.shlib)⟩, ?_, ⟨?_, held.silent, ?_⟩, ?_⟩
  · simp [step, found, ran]
  · intro shlib
    have count := countP_uses_set there (some { driver with driverStruct := after }) shlib
    simp only [uses_some] at count
    rw [held.opened]
    exact (Nat.add_right_cancel count).symm
  · intro other member offset func has
    rcases List.mem_or_eq_of_mem_set member with earlier | new
    · exact held.owned other earlier offset func has
    · cases new
      rcases loads.owned offset func has with before | owned
      · exact held.owned driver (List.mem_of_getElem? there) offset func before
      · exact owned
  · exact ⟨driver, after, found, rfl, rfl, rfl, loads⟩

theorem closes_held (held : Held l w) {i : Nat} (permitted : Permitted l w (.closes i)) :
    ∃ after, step l w (.closes i) = some after ∧ Held l after ∧ Contract l w (.closes i) after := by
  obtain ⟨driver, found⟩ := Option.isSome_iff_exists.mp permitted
  have there := driver_eq_some.mp found
  have isOpen := driver_isOpen held found
  refine ⟨⟨{ w.dl with opened := Function.update w.dl.opened driver.shlib (w.dl.opened driver.shlib - 1) }, w.drivers.set i none, none⟩,
    by simp [step, found, driverClose, shlibClose_eq isOpen], ⟨?_, held.silent, ?_⟩, rfl, rfl⟩
  · intro shlib
    have count := countP_uses_set there none shlib
    change Function.update w.dl.opened driver.shlib (w.dl.opened driver.shlib - 1) shlib = _
    by_cases same : driver.shlib = shlib
    · rw [if_pos same] at count
      rw [same, Function.update_self, held.opened, ← Nat.add_sub_cancel_right (List.countP _ (w.drivers.set i none)) 1, count]
      rfl
    · rw [if_neg same] at count
      rw [Function.update_of_ne (Ne.symm same), held.opened]
      exact count.symm
  · intro other member
    rcases List.mem_or_eq_of_mem_set member with earlier | new
    · exact held.owned other earlier
    · cases new

theorem step_held {act : Act} (held : Held l w) (permitted : Permitted l w act) :
    ∃ after, step l w act = some after ∧ Held l after ∧ Contract l w act after := by
  cases act with
  | opens name => exact opens_held held permitted
  | loads i driverFunctions => exact loads_held held permitted
  | closes i => exact closes_held held permitted

theorem start_held : Held l start := ⟨fun _ => rfl, rfl, nofun⟩

end

/-- Through all calls on drivers, a library is open as long as there is a driver in it that
    was not closed, and each call does what it is for, or says what it did not find. -/
theorem drivers_held (l : Loader) (acts : List Act) (guarded : Guarded (step l) (Permitted l) start acts) :
    Meets (step l) (Contract l) start acts ∧ ∃ w, run (step l) start acts = some w ∧ Held l w := by
  refine ⟨guarded_meets (fun _ _ => step_held) start_held guarded, guarded_total ?_ start_held guarded⟩
  intro w act held permitted
  obtain ⟨after, stepped, kept, _⟩ := step_held held permitted
  exact ⟨after, stepped, kept⟩

/-- A loader with one library, under two names: it has version 3, and no function besides
    `getAPIVersion` but `play`. -/
def soundLoader : Loader where
  library name := if name = lit "sound" ∨ name = lit "./sound" then some 7 else none
  function _ name := if name = lit "getAPIVersion" then some 40 else if name = lit "play" then some 41 else none
  noLibrary name := name ++ lit ": cannot open shared object file"
  noFunction _ name := lit "undefined symbol: " ++ name
  getAPIVersion _ := .ok 3

/-- Two drivers in one library, a name that leads nowhere, a load that fails and one that does not. -/
def soundCalls : List Act :=
  [.opens (lit "sound"), .opens (lit "./sound"), .opens (lit "music"), .loads 0 [⟨lit "play", 0⟩, ⟨lit "record", 8⟩],
    .loads 1 [⟨lit "play", 0⟩], .closes 0]

theorem drivers_held_sound : Meets (step soundLoader) (Contract soundLoader) start soundCalls ∧
    ∃ w, run (step soundLoader) start soundCalls = some w ∧ Held soundLoader w ∧ w.dl.opened 7 = 1 := by
  have callable : ∀ shlib, soundLoader.function shlib (lit "getAPIVersion") ≠ some 0 := by
    intro shlib
    simp [soundLoader]
  obtain ⟨meets, w, ran, held⟩ := drivers_held soundLoader soundCalls (by
    refine guarded_step (fun shlib _ => callable shlib) rfl ?_
    refine guarded_step (fun shlib _ => callable shlib) rfl ?_
    refine guarded_step (fun shlib _ => callable shlib) rfl ?_
    refine guarded_step rfl rfl ?_
    refine guarded_step rfl rfl ?_
    exact ⟨rfl, fun _ _ => trivial⟩)
  refine ⟨meets, w, ran, held, ?_⟩
  cases ran
  rfl

end VoxiUtil.Drivers
