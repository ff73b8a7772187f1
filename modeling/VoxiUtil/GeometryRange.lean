import VoxiUtil.Geometry

/-!
Where the angles of `geometry.c` can be computed at all: every product and every change of
sign is in the range of `int`, no divisor is 0, and every index is one of the table.
-/
namespace VoxiUtil.GeometryRange
open VoxiUtil.Geometry

/-- The position of an `sCoordinate` in the plane. -/
structure SCoordinate where
  x : Int32
  z : Int32

/-- The values of `int`. -/
def InInt (n : Int) : Prop := -2147483648 ≤ n ∧ n ≤ 2147483647

instance (n : Int) : Decidable (InInt n) := inferInstanceAs (Decidable (_ ∧ _))

section
variable (table : Vector UInt16 8193)

/-- `geo_directionFromAtoB`. -/
def geoDirectionFromAtoB (a b : SCoordinate) : Option UInt16 := do
  let dx ← int (b.x.toInt - a.x.toInt)
  let dz ← int (b.z.toInt - a.z.toInt)
  geoAtan table dx dz

end

/-- Both differences have an opposite, and the smaller of them fits when it is scaled. Behind and to the left the
    scaled difference is negative, where an `int` has one value more. -/
def Scales (dx dz : Int) : Prop :=
  dx ≠ -2147483648 ∧ dz ≠ -2147483648 ∧
    (min dx.natAbs dz.natAbs < 262144 ∨ dx < 0 ∧ dz < 0 ∧ min dx.natAbs dz.natAbs = 262144)

instance (dx dz : Int) : Decidable (Scales dx dz) := inferInstanceAs (Decidable (_ ∧ _))

section
variable {table : Vector UInt16 8193} {a b dx dz n : Int}

theorem int_inside (inside : InInt n) : int n = some n := if_pos inside

theorem int_outside (outside : ¬ InInt n) : int n = none := if_neg outside

/-- A slope of at most one, cut towards zero, is an index of the table. -/
theorem cut_index (positive : 0 < b) (low : 0 ≤ a) (flat : a ≤ b) : 0 ≤ (a * 8192).tdiv b ∧ (a * 8192).tdiv b ≤ 8192 := by
  rw [Int.tdiv_eq_ediv_of_nonneg (by omega)]
  constructor
  · exact Int.ediv_nonneg (by omega) positive.le
  · exact Int.ediv_le_of_le_mul positive (by omega)

/-- Two signs that cancel out lead to the same index. -/
theorem cut_neg : (a * 8192).tdiv b = (-a * 8192).tdiv (-b) := by
  rw [Int.neg_mul, Int.tdiv_neg, Int.neg_tdiv, Int.neg_neg]

/-- In its eighth of the circle, neither the division nor the index goes wrong; only the product can. -/
theorem atanTable_isSome_iff (divisor : b ≠ 0) (eighth : 0 ≤ a ∧ a ≤ b ∨ b ≤ a ∧ a ≤ 0) :
    (atanTable table a b).isSome ↔ InInt (a * 8192) := by
  have index : 0 ≤ (a * 8192).tdiv b ∧ (a * 8192).tdiv b ≤ 8192 := by
    rcases eighth with ⟨low, flat⟩ | ⟨flat, low⟩
    · exact cut_index (by omega) low flat
    · rw [cut_neg]
      exact cut_index (by omega) (by omega) (by omega)
  by_cases inside : InInt (a * 8192)
  · have found : ((a * 8192).tdiv b).toNat < 8193 := by omega
    rw [atanTable, int_inside inside]
    simp [divisor, index.1.not_gt, Vector.getElem?_eq_getElem found, inside]
  · rw [atanTable, int_outside inside]
    simp [inside]

/-! ### The quarters of the circle -/

theorem defined_first (right : 0 < dx) (front : 0 < dz) : (geoAtan table dx dz).isSome ↔ InInt (min dx dz * 8192) := by
  by_cases steep : dx < dz
  · have found := @atanTable_isSome_iff table dx dz (by omega) (.inl ⟨right.le, steep.le⟩)
    simp [geoAtan, right, front, right.ne', front.ne', steep, min_eq_left steep.le, found]
  · have found := @atanTable_isSome_iff table dz dx (by omega) (.inl ⟨front.le, not_lt.mp steep⟩)
    simp [geoAtan, right, front, right.ne', front.ne', steep, min_eq_right (not_lt.mp steep), found]

theorem defined_second (right : 0 < dx) (back : dz ≤ 0) :
    (geoAtan table dx dz).isSome ↔ InInt (-dz) ∧ InInt (min dx (-dz) * 8192) := by
  by_cases opposite : InInt (-dz)
  · by_cases steep : dx < -dz
    · have found := @atanTable_isSome_iff table dx (-dz) (by omega) (.inl ⟨right.le, steep.le⟩)
      simp [geoAtan, right, right.ne', back.not_gt, int_inside opposite, opposite, steep, min_eq_left steep.le, found]
    · have found := @atanTable_isSome_iff table (-dz) dx (by omega) (.inl ⟨by omega, not_lt.mp steep⟩)
      simp [geoAtan, right, right.ne', back.not_gt, int_inside opposite, opposite, steep, min_eq_right (not_lt.mp steep), found]
  · simp [geoAtan, right, right.ne', back.not_gt, int_outside opposite, opposite]

theorem defined_third (left : dx ≤ 0) (back : dz ≤ 0) (somewhere : ¬(dx = 0 ∧ dz = 0)) :
    (geoAtan table dx dz).isSome ↔ InInt (-dz) ∧ InInt (-dx) ∧ InInt (max dx dz * 8192) := by
  by_cases oppositeZ : InInt (-dz)
  · by_cases oppositeX : InInt (-dx)
    · by_cases steep : -dx < -dz
      · have found := @atanTable_isSome_iff table dx dz (by omega) (.inr ⟨by omega, left⟩)
        have nearer : dz < dx := by omega
        simp [geoAtan, somewhere, left.not_gt, back.not_gt, int_inside oppositeX, int_inside oppositeZ, oppositeX, oppositeZ, nearer,
          max_eq_left nearer.le, found]
      · have found := @atanTable_isSome_iff table dz dx (by omega) (.inr ⟨by omega, back⟩)
        have nearer : ¬ dz < dx := by omega
        simp [geoAtan, somewhere, left.not_gt, back.not_gt, int_inside oppositeX, int_inside oppositeZ, oppositeX, oppositeZ, nearer,
          max_eq_right (not_lt.mp nearer), found]
    · simp [geoAtan, somewhere, left.not_gt, back.not_gt, int_inside oppositeZ, int_outside oppositeX, oppositeX]
  · simp [geoAtan, somewhere, left.not_gt, back.not_gt, int_outside oppositeZ, oppositeZ]

theorem defined_fourth (left : dx ≤ 0) (front : 0 < dz) :
    (geoAtan table dx dz).isSome ↔ InInt (-dx) ∧ InInt (min (-dx) dz * 8192) := by
  by_cases opposite : InInt (-dx)
  · by_cases steep : -dx < dz
    · have found := @atanTable_isSome_iff table (-dx) dz (by omega) (.inl ⟨by omega, steep.le⟩)
      simp [geoAtan, front, front.ne', left.not_gt, int_inside opposite, opposite, steep, min_eq_left steep.le, found]
    · have found := @atanTable_isSome_iff table dz (-dx) (by omega) (.inl ⟨front.le, not_lt.mp steep⟩)
      simp [geoAtan, front, front.ne', left.not_gt, int_inside opposite, opposite, steep, min_eq_right (not_lt.mp steep), found]
  · simp [geoAtan, front, front.ne', left.not_gt, int_outside opposite, opposite]

theorem geoAtan_isSome_iff (insideX : InInt dx) (insideZ : InInt dz) : (geoAtan table dx dz).isSome ↔ Scales dx dz := by
  unfold InInt at insideX insideZ
  unfold Scales
  by_cases somewhere : dx = 0 ∧ dz = 0
  · obtain ⟨rfl, rfl⟩ := somewhere
    simp [geoAtan]
  by_cases right : 0 < dx
  · by_cases front : 0 < dz
    · rw [defined_first right front, InInt]
      omega
    · rw [defined_second right (not_lt.mp front), InInt, InInt]
      omega
  · by_cases front : 0 < dz
    · rw [defined_fourth (not_lt.mp right) front, InInt, InInt]
      omega
    · rw [defined_third (not_lt.mp right) (not_lt.mp front) somewhere, InInt, InInt, InInt]
      omega

end

/-- For positions whose differences are `int`s, no step of the calculation leaves the range of `int`, divides by 0 or looks
    outside of the table, just when the differences scale. -/
theorem direction_defined_iff {table : Vector UInt16 8193} {a b : SCoordinate} (insideX : InInt (b.x.toInt - a.x.toInt))
    (insideZ : InInt (b.z.toInt - a.z.toInt)) :
    (geoDirectionFromAtoB table a b).isSome ↔ Scales (b.x.toInt - a.x.toInt) (b.z.toInt - a.z.toInt) := by
  rw [geoDirectionFromAtoB, int_inside insideX, int_inside insideZ]
  exact geoAtan_isSome_iff insideX insideZ

/-- To the diagonal, at the last distance behind and to the left. -/
theorem direction_defined_iff_diagonal :
    (geoDirectionFromAtoB (Vector.replicate 8193 0) ⟨262144, 262144⟩ ⟨0, 0⟩).isSome :=
  (direction_defined_iff (by decide) (by decide)).mpr (by decide)

/-- From the same distance in front and to the right the product is beyond the range of `int`. -/
theorem far_diagonal_fails : InInt ((262144 : Int32).toInt - (0 : Int32).toInt) ∧
    geoDirectionFromAtoB (Vector.replicate 8193 0) ⟨0, 0⟩ ⟨262144, 262144⟩ = none :=
  ⟨by decide, rfl⟩

end VoxiUtil.GeometryRange
