import VoxiUtil.StrbufCalls

/-!
Lists of strings in a buffer of `strbuf.c`: the strings one after another, each with its
NUL. A pop gives `none` where it would follow a null pointer or read what is not stored.
-/
namespace VoxiUtil.StrbufStringList
open VoxiUtil.CString VoxiUtil.Runs VoxiUtil.Strbuf VoxiUtil.StrbufCalls

/-- `strbuf_stringList_append`. -/
def strbufStringListAppend (s : Traced) (string : Text) : Option Traced := strbufAppendBinary s (string ++ [0])

/-- The string at an index of the data, when its NUL is there too. -/
def stringAt (strbuf : StringBuffer) (index : Nat) : Option Text :=
  if 0 ∈ strbuf.string.drop index then some (cString (strbuf.string.drop index)) else none

/-- `strbuf_stringList_popString`, with what `*string` and `*cursor` are then. -/
def strbufStringListPopString (strbuf : StringBuffer) (cursor : Int32) : Option (Option Text × Int32) :=
  if cursor.toInt < 0 then none
  -- `*string` is set to `NULL`, of which `strlen` is taken.
  else if cursor.toInt.toNat = strbuf.string.length then none
  -- The parameter `cursor` moves on, and not what it points to.
  else (stringAt strbuf cursor.toInt.toNat).map fun string => (some string, cursor)

/-- Pops give the strings, each moving the caller's cursor behind the string that it gave,
    and the next one gives `NULL`. -/
def RoundTrip (strbuf : StringBuffer) : Int32 → List Text → Prop
  | cursor, [] => ∃ next, strbufStringListPopString strbuf cursor = some (none, next)
  | cursor, string :: rest => ∃ next, strbufStringListPopString strbuf cursor = some (some string, next) ∧
      next.toInt = cursor.toInt + string.length + 1 ∧ RoundTrip strbuf next rest

/-- The strings with their NULs. -/
def layout (strings : List Text) : Text := strings.flatMap fun string => string ++ [0]

section
variable {strbuf : StringBuffer} {cursor next : Int32} {result : Option Text}

/-- An append puts the string and its NUL behind what is stored. -/
theorem append_spec {s : Traced} (balanced : Balanced s.strbuf) (string : Text) :
    ∃ t, strbufStringListAppend s string = some t ∧ Balanced t.strbuf ∧
      t.strbuf.string = s.strbuf.string ++ (string ++ [0]) := by
  have proper : (Call.appendBinary (string ++ [0])).Proper := rfl
  obtain ⟨t, stepped, appended, -⟩ := call_spec balanced proper
  exact ⟨t, stepped, appended.balanced, appended.string⟩

/-- A list of appends to a new buffer stores the strings in their order. -/
theorem appends_layout (length : UInt64) (strings : List Text) :
    ∃ t, run strbufStringListAppend (create length) strings = some t ∧ t.strbuf.string = layout strings := by
  have each : ∀ (s : Traced) (string : Text), Balanced s.strbuf → True → ∃ t, strbufStringListAppend s string = some t ∧
      Balanced t.strbuf ∧ t.strbuf.string = s.strbuf.string ++ (string ++ [0]) :=
    fun s string balanced _ => append_spec balanced string
  obtain ⟨t, ran, -, string⟩ := run_emits (fun s : Traced => s.strbuf.string) (fun string => string ++ [0]) each
    (create_balanced length) fun string (_ : string ∈ strings) => trivial
  exact ⟨t, ran, string⟩

/-- A pop leaves the caller's cursor where it is, and never gives `NULL`. -/
theorem pop_stays (popped : strbufStringListPopString strbuf cursor = some (result, next)) : next = cursor ∧ result ≠ none := by
  unfold strbufStringListPopString at popped
  by_cases negative : cursor.toInt < 0
  · rw [if_pos negative] at popped
    cases popped
  · rw [if_neg negative] at popped
    by_cases last : cursor.toInt.toNat = strbuf.string.length
    · rw [if_pos last] at popped
      cases popped
    · rw [if_neg last] at popped
      obtain ⟨string, -, same⟩ := Option.map_eq_some_iff.mp popped
      cases same
      exact ⟨rfl, Option.some_ne_none string⟩

/-- At the start of a stored string, a pop gives it. -/
theorem pop_gives {before string after : Text} (stored : strbuf.string = before ++ (string ++ 0 :: after)) (noNul : 0 ∉ string)
    (here : cursor.toInt = before.length) : strbufStringListPopString strbuf cursor = some (some string, cursor) := by
  have inside : ¬ cursor.toInt.toNat = strbuf.string.length := by
    rw [here, stored]
    simp
  have dropped : strbuf.string.drop cursor.toInt.toNat = string ++ 0 :: after := by
    rw [here, stored, Int.toNat_natCast, List.drop_left]
  rw [strbufStringListPopString, if_neg (by omega), if_neg inside, stringAt, dropped, if_pos (by simp), cString_ended noNul,
    Option.map_some]

/-- From the start of the list, every pop gives the first string. -/
theorem first_string_again (length : UInt64) {string : Text} (noNul : 0 ∉ string) (rest : List Text) :
    ∃ t, run strbufStringListAppend (create length) (string :: rest) = some t ∧
      strbufStringListPopString t.strbuf 0 = some (some string, 0) := by
  obtain ⟨t, ran, stored⟩ := appends_layout length (string :: rest)
  refine ⟨t, ran, ?_⟩
  apply @pop_gives _ 0 [] string (layout rest) _ noNul rfl
  rw [stored]
  simp [layout]

/-- Pops do not give back any list of strings that was appended to a new buffer: the last of
    them would have to give `NULL`, and each one before it to move the cursor. -/
theorem never_round_trip (length : UInt64) (strings : List Text) :
    ∃ t, run strbufStringListAppend (create length) strings = some t ∧ t.strbuf.string = layout strings ∧
      ¬ RoundTrip t.strbuf 0 strings := by
  obtain ⟨t, ran, stored⟩ := appends_layout length strings
  refine ⟨t, ran, stored, ?_⟩
  intro trip
  cases strings with
  | nil =>
    obtain ⟨next, popped⟩ := trip
    exact (pop_stays popped).2 rfl
  | cons string rest =>
    obtain ⟨next, popped, moved, -⟩ := trip
    rw [(pop_stays popped).1] at moved
    omega

end

/-- One string comes back, with the cursor still at its start, and the empty list ends in a
    null pointer. -/
theorem list_lost :
    (∃ t, run strbufStringListAppend (create 8) [lit "one"] = some t ∧
      strbufStringListPopString t.strbuf 0 = some (some (lit "one"), 0) ∧ ¬ RoundTrip t.strbuf 0 [lit "one"]) ∧
    (∃ t, run strbufStringListAppend (create 8) [] = some t ∧
      strbufStringListPopString t.strbuf 0 = none ∧ ¬ RoundTrip t.strbuf 0 []) := by
  constructor
  · refine ⟨_, rfl, by decide, ?_⟩
    rintro ⟨next, popped, moved, -⟩
    have same : next = 0 := (pop_stays popped).1
    rw [same] at moved
    exact absurd moved (by decide)
  · refine ⟨_, rfl, by decide, ?_⟩
    rintro ⟨next, popped⟩
    exact (pop_stays popped).2 rfl

end VoxiUtil.StrbufStringList
