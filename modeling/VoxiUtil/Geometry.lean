import Mathlib.Algebra.Order.Ring.Int

/-!
The angles of `geometry.c`, from a table of the angles up to an eighth of the circle. Where
the vector is in another eighth, its slope is that of one in the first.
-/
namespace VoxiUtil.Geometry

/-- A result of the type `int`, where it has one. -/
def int (n : Int) : Option Int := if -2147483648 ≤ n ∧ n ≤ 2147483647 then some n else none

section
variable (table : Vector UInt16 8193)

/-- `atan_table[ a * 8192 / b ]`; the division cuts towards zero. -/
def atanTable (a b : Int) : Option Int := do
  let product ← int (a * 8192)
  let index ← if b = 0 then none else some (product.tdiv b)
  let angle ← if index < 0 then none else table[index.toNat]?
  return angle.toNat

/-- `geo_atan`, but for its warning. -/
def geoAtan (dx dz : Int) : Option UInt16 :=
  if dx = 0 ∧ dz = 0 then some 0
  else Option.map UInt16.ofInt <|
    if dz > 0 then
      if dx > 0 then
        if dz > dx then atanTable table dx dz
        else (atanTable table dz dx).map fun angle => 16384 - angle
      else do
        let minusDx ← int (-dx)
        if dz > minusDx then (atanTable table minusDx dz).map fun angle => 65536 - angle
        else (atanTable table dz minusDx).map fun angle => 49152 + angle
    else
      if dx > 0 then do
        let minusDz ← int (-dz)
        if minusDz > dx then (atanTable table dx minusDz).map fun angle => 32768 - angle
        else (atanTable table minusDz dx).map fun angle => 16384 + angle
      else do
        let minusDz ← int (-dz)
        let minusDx ← int (-dx)
        if minusDz > minusDx then (atanTable table dx dz).map fun angle => 32768 + angle
        else (atanTable table dz dx).map fun angle => 49152 - angle

/-- The table's angle for a slope. -/
def slope (m n : Nat) : Int := (table[m * 8192 / n]?.getD 0).toNat

end

section
variable {table : Vector UInt16 8193} {a b dx dz : Int} {m n : Nat}

theorem int_small (small : a.natAbs < 262144) : int (a * 8192) = some (a * 8192) := by
  rw [int, if_pos (by omega)]

theorem int_nat (small : n < 262144) : int n = some (n : Int) := by
  rw [int, if_pos (by omega)]

/-- The table has an angle for every slope up to one. -/
theorem slope_found (below : m ≤ n) : (table[m * 8192 / n]?).map (fun angle => (angle.toNat : Int)) = some (slope table m n) := by
  have index : m * 8192 / n < 8193 := by
    have := Nat.div_le_of_le_mul (Nat.mul_le_mul_right 8192 below)
    omega
  rw [slope, Vector.getElem?_eq_getElem index]
  rfl

theorem atanTable_slope (small : m < 262144) (below : m ≤ n) (positive : 0 < n) :
    atanTable table m n = some (slope table m n) := by
  have cut : ((m : Int) * 8192).tdiv n = (m * 8192 / n : Nat) := by
    rw [show (m : Int) * 8192 = (m * 8192 : Nat) by simp]
    rfl
  obtain ⟨angle, found, value⟩ := Option.map_eq_some_iff.mp (@slope_found table m n below)
  rw [atanTable, int_small (by omega)]
  simp only [Option.bind_eq_bind, Option.bind_some, cut]
  rw [if_neg (by omega), if_neg (not_lt.mpr (Int.natCast_nonneg _)), Int.toNat_natCast, found]
  exact congrArg some value

/-- Two signs that cancel out. -/
theorem atanTable_neg (small : a.natAbs < 262144) : atanTable table (-a) (-b) = atanTable table a b := by
  have cut : (-a * 8192).tdiv (-b) = (a * 8192).tdiv b := by
    rw [Int.neg_mul, Int.tdiv_neg, Int.neg_tdiv, Int.neg_neg]
  rw [atanTable, atanTable, int_small small, int_small (by rwa [Int.natAbs_neg])]
  simp only [Option.bind_eq_bind, Option.bind_some, cut, neg_eq_zero]

/-! ### The quarters of the circle -/

theorem quarter_first (smallX : m < 262144) (smallZ : n < 262144) (right : 0 < m) (front : 0 < n) :
    geoAtan table m n = some (UInt16.ofInt (if m < n then slope table m n else 16384 - slope table n m)) := by
  by_cases steep : m < n
  · simp [geoAtan, right, front, right.ne', front.ne', steep, atanTable_slope smallX steep.le front]
  · simp [geoAtan, right, front, right.ne', front.ne', steep, atanTable_slope smallZ (not_lt.mp steep) right]

theorem quarter_second (smallX : m < 262144) (smallZ : n < 262144) (right : 0 < m) :
    geoAtan table m (-n) = some (UInt16.ofInt (if m < n then 32768 - slope table m n else 16384 + slope table n m)) := by
  have back : ¬(n : Int) < 0 := by omega
  by_cases steep : m < n
  · simp [geoAtan, right, right.ne', back, steep, int_nat smallZ, atanTable_slope smallX steep.le (by omega)]
  · simp [geoAtan, right, right.ne', back, steep, int_nat smallZ, atanTable_slope smallZ (not_lt.mp steep) right]

theorem quarter_third (smallX : m < 262144) (smallZ : n < 262144) (somewhere : ¬(m = 0 ∧ n = 0)) :
    geoAtan table (-m) (-n) = some (UInt16.ofInt (if m < n then 32768 + slope table m n else 49152 - slope table n m)) := by
  have left : ¬(m : Int) < 0 := by omega
  have back : ¬(n : Int) < 0 := by omega
  by_cases steep : m < n
  · have found : atanTable table (-m) (-n) = some (slope table m n) := by
      rw [atanTable_neg (by omega), atanTable_slope smallX steep.le (by omega)]
    simp [geoAtan, somewhere, left, back, steep, int_nat smallX, int_nat smallZ, found]
  · have found : atanTable table (-n) (-m) = some (slope table n m) := by
      rw [atanTable_neg (by omega), atanTable_slope smallZ (not_lt.mp steep) (by omega)]
    simp [geoAtan, somewhere, left, back, steep, int_nat smallX, int_nat smallZ, found]

theorem quarter_fourth (smallX : m < 262144) (smallZ : n < 262144) (front : 0 < n) :
    geoAtan table (-m) n = some (UInt16.ofInt (if m < n then 65536 - slope table m n else 49152 + slope table n m)) := by
  have left : ¬(m : Int) < 0 := by omega
  by_cases steep : m < n
  · simp [geoAtan, front, front.ne', left, steep, int_nat smallX, atanTable_slope smallX steep.le front]
  · simp [geoAtan, front, front.ne', left, steep, int_nat smallX, atanTable_slope smallZ (not_lt.mp steep) (by omega)]

/-- An angle in front of the circle's start is the one a turn later. -/
theorem ofInt_turn (angle : Int) : UInt16.ofInt (angle + 65536) = UInt16.ofInt angle := by
  rw [UInt16.ofInt_add, show UInt16.ofInt 65536 = 0 from rfl, UInt16.add_zero]

theorem ofInt_quarter (angle : Int) : UInt16.ofInt (angle + 16384) = UInt16.ofInt angle + 16384 := by
  rw [UInt16.ofInt_add]
  rfl

theorem slope_zero (first : table[0] = 0) (n : Nat) : slope table 0 n = 0 := by
  simp [slope, first]

theorem slope_one (last : table[8192] = 8192) (positive : 0 < n) : slope table n n = 8192 := by
  rw [slope, Nat.mul_div_cancel_left _ positive, Vector.getElem?_eq_getElem (by decide), last]
  rfl

/-- A vector is steeper than the one that it is turned to, or flatter, or both are diagonal. -/
theorem slopes_cases {P : Int → Int → Prop} {steepAfter flatAfter steepBefore flatBefore : Int}
    (steep : m < n → P flatAfter steepBefore) (flat : n < m → P steepAfter flatBefore)
    (diagonal : m = n → P flatAfter flatBefore) :
    P (if n < m then steepAfter else flatAfter) (if m < n then steepBefore else flatBefore) := by
  rcases lt_trichotomy m n with less | same | more
  · rw [if_neg less.not_gt, if_pos less]
    exact steep less
  · rw [if_neg same.not_gt, if_neg same.not_lt]
    exact diagonal same
  · rw [if_pos more, if_neg more.not_gt]
    exact flat more

/-- Angles a quarter apart, perhaps over the circle's start. -/
def Apart (after before : Int) : Prop := after = before + 16384 ∨ after + 65536 = before + 16384

theorem apart_turned {before after : Int} (one : geoAtan table dx dz = some (UInt16.ofInt before))
    (two : geoAtan table dz (-dx) = some (UInt16.ofInt after)) (apart : Apart after before) :
    ∃ angle, geoAtan table dx dz = some angle ∧ geoAtan table dz (-dx) = some (angle + 16384) := by
  refine ⟨_, one, ?_⟩
  rw [two, ← ofInt_quarter]
  rcases apart with next | around
  · rw [next]
  · rw [← around, ofInt_turn]

end

/-- A vector that is turned by a quarter has an angle that is a quarter more. -/
theorem geoAtan_turned {table : Vector UInt16 8193} {dx dz : Int} (first : table[0] = 0) (last : table[8192] = 8192)
    (smallX : dx.natAbs < 262144) (smallZ : dz.natAbs < 262144) (somewhere : ¬(dx = 0 ∧ dz = 0)) :
    ∃ angle, geoAtan table dx dz = some angle ∧ geoAtan table dz (-dx) = some (angle + 16384) := by
  by_cases right : 0 < dx
  · obtain ⟨m, rfl⟩ : ∃ m : Nat, dx = m := ⟨dx.toNat, by omega⟩
    have diagonal : slope table m m = 8192 := slope_one last (by omega)
    by_cases front : 0 < dz
    · obtain ⟨n, rfl⟩ : ∃ n : Nat, dz = n := ⟨dz.toNat, by omega⟩
      refine apart_turned (quarter_first (by omega) (by omega) (by omega) (by omega))
        (quarter_second (by omega) (by omega) (by omega)) (slopes_cases ?_ ?_ ?_)
      · exact fun _ => .inl (by omega)
      · exact fun _ => .inl (by omega)
      · rintro rfl
        exact .inl (by omega)
    · obtain ⟨n, rfl⟩ : ∃ n : Nat, dz = -n := ⟨(-dz).toNat, by omega⟩
      refine apart_turned (quarter_second (by omega) (by omega) (by omega))
        (quarter_third (by omega) (by omega) (by omega)) (slopes_cases ?_ ?_ ?_)
      · exact fun _ => .inl (by omega)
      · exact fun _ => .inl (by omega)
      · rintro rfl
        exact .inl (by omega)
  · obtain ⟨m, rfl⟩ : ∃ m : Nat, dx = -m := ⟨(-dx).toNat, by omega⟩
    by_cases axis : m = 0
    · subst axis
      have level := slope_zero first
      by_cases front : 0 < dz
      · obtain ⟨n, rfl⟩ : ∃ n : Nat, dz = n := ⟨dz.toNat, by omega⟩
        have after := @quarter_second table n 0 (by omega) (by decide) (by omega)
        refine apart_turned (quarter_fourth (by decide) (by omega) (by omega)) (by rw [neg_neg]; exact after)
          (slopes_cases ?_ ?_ ?_)
        · exact fun _ => .inr (by rw [level n]; omega)
        · exact fun less => absurd less (Nat.not_lt_zero n)
        · rintro rfl
          exact absurd front (lt_irrefl _)
      · obtain ⟨n, rfl⟩ : ∃ n : Nat, dz = -n := ⟨(-dz).toNat, by omega⟩
        have after := @quarter_third table n 0 (by omega) (by decide) (by omega)
        refine apart_turned (quarter_third (by decide) (by omega) (by omega)) (by rw [neg_neg]; exact after)
          (slopes_cases ?_ ?_ ?_)
        · exact fun _ => .inl (by rw [level n]; omega)
        · exact fun less => absurd less (Nat.not_lt_zero n)
        · rintro rfl
          exact absurd ⟨rfl, rfl⟩ somewhere
    · have diagonal : slope table m m = 8192 := slope_one last (by omega)
      by_cases front : 0 < dz
      · obtain ⟨n, rfl⟩ : ∃ n : Nat, dz = n := ⟨dz.toNat, by omega⟩
        refine apart_turned (quarter_fourth (by omega) (by omega) (by omega))
          (by rw [neg_neg]; exact quarter_first (by omega) (by omega) (by omega) (by omega)) (slopes_cases ?_ ?_ ?_)
        · exact fun _ => .inr (by omega)
        · exact fun _ => .inr (by omega)
        · rintro rfl
          exact .inr (by omega)
      · obtain ⟨n, rfl⟩ : ∃ n : Nat, dz = -n := ⟨(-dz).toNat, by omega⟩
        refine apart_turned (quarter_third (by omega) (by omega) (by omega))
          (by rw [neg_neg]; exact quarter_fourth (by omega) (by omega) (by omega)) (slopes_cases ?_ ?_ ?_)
        · exact fun _ => .inl (by omega)
        · exact fun _ => .inl (by omega)
        · rintro rfl
          exact .inl (by omega)

/-- A table with any angles between the first and the last. -/
private def evenTable : Vector UInt16 8193 := Vector.ofFn fun i => i.val.toUInt16

theorem geoAtan_turned_even :
    ∃ angle, geoAtan evenTable 3 (-5) = some angle ∧ geoAtan evenTable (-5) (-3) = some (angle + 16384) :=
  geoAtan_turned (by simp [evenTable]) (by simp [evenTable]) (by decide) (by decide) (by decide)

end VoxiUtil.Geometry
