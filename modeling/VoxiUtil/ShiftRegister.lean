import Mathlib.Data.BitVec
import Mathlib.Logic.Function.Iterate

/-!
Linear feedback shift registers of any width, shifting towards the lowest bit. A
register that is fed a block of bits one by one is the block's exclusive or with it,
shifted that often; and that is the register's upper part moved down, with what the
shifts make of the lower part.
-/
namespace VoxiUtil.ShiftRegister

variable {w : Nat}

/-- One shift; the bit that falls out decides about the feedback. -/
def shift (poly r : BitVec w) : BitVec w := (r >>> 1) ^^^ (if r.getLsbD 0 then poly else 0#w)

def shifts (poly : BitVec w) (n : Nat) (r : BitVec w) : BitVec w := (shift poly)^[n] r

/-- A register with one bit. -/
def low (bit : Bool) : BitVec w := if bit then 1#w else 0#w

/-- A bit of input, added to the lowest one before the shift. -/
def feed (poly r : BitVec w) (bit : Bool) : BitVec w := shift poly (r ^^^ low bit)

/-- Bits as a register, the first of them lowest. -/
def pack : List Bool → BitVec w
  | [] => 0#w
  | bit :: bits => low bit ^^^ (pack bits <<< 1)

section
variable {poly r a b : BitVec w} {n v : Nat} {bits : List Bool}

theorem shifts_succ (poly : BitVec w) (n : Nat) (r : BitVec w) : shifts poly (n + 1) r = shifts poly n (shift poly r) :=
  Function.iterate_succ_apply ..

/-- Shifting is linear. -/
theorem shift_xor (poly a b : BitVec w) : shift poly (a ^^^ b) = shift poly a ^^^ shift poly b := by
  have cancel : ∀ x y : BitVec w, x ^^^ y = x ^^^ poly ^^^ (y ^^^ poly) := by
    intro x y
    rw [BitVec.xor_assoc x, BitVec.xor_comm y, ← BitVec.xor_assoc poly, BitVec.xor_self, BitVec.zero_xor]
  simp only [shift, BitVec.getLsbD_xor, BitVec.ushiftRight_xor_distrib]
  cases a.getLsbD 0
  · cases b.getLsbD 0
    · simp
    · simp [BitVec.xor_assoc]
  · cases b.getLsbD 0
    · simp only [Bool.xor_false, if_true, Bool.false_eq_true, if_false, BitVec.xor_zero]
      rw [BitVec.xor_assoc, BitVec.xor_assoc, BitVec.xor_comm poly]
    · simpa using cancel _ _

theorem shifts_xor (poly : BitVec w) (n : Nat) (a b : BitVec w) :
    shifts poly n (a ^^^ b) = shifts poly n a ^^^ shifts poly n b := by
  induction n generalizing a b with
  | zero => rfl
  | succ n ih => rw [shifts_succ, shifts_succ, shifts_succ, shift_xor, ih]

/-- A bit that is not set only falls out. -/
theorem shift_clear (clear : r.getLsbD 0 = false) : shift poly r = r >>> 1 := by
  simp [shift, clear]

theorem shifts_clear (clear : ∀ i < n, r.getLsbD i = false) : shifts poly n r = r >>> n := by
  induction n generalizing r with
  | zero => simp [shifts]
  | succ n ih =>
    rw [shifts_succ, shift_clear (clear 0 (Nat.succ_pos n)), ih, ← BitVec.shiftRight_add, Nat.add_comm]
    intro i small
    rw [BitVec.getLsbD_ushiftRight]
    exact clear (1 + i) (by omega)

/-- A register is its upper part and its lower part. -/
theorem split_low (r : BitVec w) (n : Nat) : (r >>> n <<< n) ^^^ BitVec.ofNat w (r.toNat % 2 ^ n) = r := by
  apply BitVec.eq_of_getLsbD_eq
  intro i small
  simp only [BitVec.getLsbD_xor, BitVec.getLsbD_shiftLeft, BitVec.getLsbD_ushiftRight, BitVec.getLsbD_ofNat,
    Nat.testBit_mod_two_pow, small, decide_true, Bool.true_and]
  by_cases below : i < n
  · simp [below, BitVec.getLsbD]
  · simp [below, Nat.add_sub_cancel' (Nat.le_of_not_lt below)]

/-- The upper part only moves down. -/
theorem shifts_split (poly r : BitVec w) (n : Nat) :
    shifts poly n r = (r >>> n) ^^^ shifts poly n (BitVec.ofNat w (r.toNat % 2 ^ n)) := by
  have clear : ∀ i < n, (r >>> n <<< n).getLsbD i = false := by
    intro i small
    simp [small]
  have upper : r >>> n <<< n >>> n = r >>> n := by
    apply BitVec.eq_of_getLsbD_eq
    intro i _
    simp only [BitVec.getLsbD_ushiftRight, BitVec.getLsbD_shiftLeft]
    by_cases inside : n + i < w
    · simp [inside]
    · simp [inside, BitVec.getLsbD_of_ge r (n + i) (by omega)]
  conv_lhs => rw [← split_low r n, shifts_xor, shifts_clear clear, upper]

/-! ### Blocks of input -/

theorem low_getLsbD (bit : Bool) (i : Nat) : (low bit : BitVec w).getLsbD i = (decide (i < w) && decide (i = 0) && bit) := by
  cases bit
  · simp [low]
  · by_cases zero : i = 0
    · simp [low, zero]
    · simp [low, zero, BitVec.getLsbD_one]

theorem pack_getLsbD (bits : List Bool) (i : Nat) : (pack bits : BitVec w).getLsbD i = (decide (i < w) && bits.getD i false) := by
  induction bits generalizing i with
  | nil => simp [pack]
  | cons bit bits ih =>
    rw [pack, BitVec.getLsbD_xor, low_getLsbD, BitVec.getLsbD_shiftLeft, ih]
    cases i with
    | zero => simp
    | succ i =>
      have before : i + 1 < w → i < w := Nat.lt_of_succ_lt
      by_cases inside : i + 1 < w
      · simp [inside, before inside]
      · simp [inside]

/-- The bits above a block are not set. -/
theorem pack_above (above : bits.length ≤ n) : (pack bits : BitVec w).getLsbD n = false := by
  rw [pack_getLsbD, List.getD_eq_getElem?_getD, List.getElem?_eq_none above, Option.getD_none, Bool.and_false]

/-- The bits of a block one by one are the block at once and then the shifts. -/
theorem feed_pack (poly r : BitVec w) (short : bits.length ≤ w) :
    bits.foldl (feed poly) r = shifts poly bits.length (r ^^^ pack bits) := by
  induction bits generalizing r with
  | nil => simp [shifts, pack]
  | cons bit bits ih =>
    rw [List.length_cons] at short
    have back : shift poly ((pack bits : BitVec w) <<< 1) = pack bits := by
      rw [shift_clear (by simp)]
      apply BitVec.eq_of_getLsbD_eq
      intro i small
      rw [BitVec.getLsbD_ushiftRight, BitVec.getLsbD_shiftLeft]
      by_cases last : 1 + i < w
      · simp [last]
      · have above : bits.length ≤ i := by omega
        simp [last, pack_above above]
    rw [List.foldl_cons, ih _ (by omega), List.length_cons, shifts_succ, pack, ← BitVec.xor_assoc, shift_xor, back, feed]

/-- A block of input needs what the shifts make of as many bits only. -/
theorem feed_block (poly r : BitVec w) (short : bits.length ≤ w) :
    bits.foldl (feed poly) r =
      (r >>> bits.length) ^^^ shifts poly bits.length (BitVec.ofNat w ((r ^^^ pack bits).toNat % 2 ^ bits.length)) := by
  have above : (r ^^^ pack bits) >>> bits.length = r >>> bits.length := by
    apply BitVec.eq_of_getLsbD_eq
    intro i _
    rw [BitVec.getLsbD_ushiftRight, BitVec.getLsbD_ushiftRight, BitVec.getLsbD_xor, pack_above (Nat.le_add_right _ i),
      Bool.xor_false]
  rw [feed_pack poly r short, shifts_split, above]

/-! ### Wider registers -/

/-- A register in a wider one shifts as it does alone. -/
theorem shift_setWidth (poly r : BitVec w) (wider : w ≤ v) :
    shift (poly.setWidth v) (r.setWidth v) = (shift poly r).setWidth v := by
  apply BitVec.eq_of_getLsbD_eq
  intro i small
  have bit : (r.setWidth v).getLsbD 0 = r.getLsbD 0 := by
    rw [BitVec.getLsbD_setWidth, show decide (0 < v) = true by simp; omega, Bool.true_and]
  have moved : (r.setWidth v).getLsbD (1 + i) = r.getLsbD (1 + i) := by
    rw [BitVec.getLsbD_setWidth]
    by_cases inside : 1 + i < v
    · simp [inside]
    · simp [inside, BitVec.getLsbD_of_ge r (1 + i) (by omega)]
  rw [shift, bit, BitVec.getLsbD_setWidth, shift, BitVec.getLsbD_xor, BitVec.getLsbD_xor, BitVec.getLsbD_ushiftRight, moved,
    BitVec.getLsbD_ushiftRight]
  cases r.getLsbD 0
  · simp [small]
  · simp [small]

theorem feed_setWidth (poly r : BitVec w) (bit : Bool) (wider : w ≤ v) (positive : 0 < w) :
    feed (poly.setWidth v) (r.setWidth v) bit = (feed poly r bit).setWidth v := by
  have added : (low bit : BitVec v) = (low bit : BitVec w).setWidth v := by
    apply BitVec.eq_of_getLsbD_eq
    intro i small
    rw [BitVec.getLsbD_setWidth, low_getLsbD, low_getLsbD]
    by_cases zero : i = 0
    · simp [zero, positive]
    · simp [zero]
  rw [feed, added, ← BitVec.setWidth_xor, shift_setWidth _ _ wider, feed]

/-- And so over any input. -/
theorem foldl_setWidth (poly r : BitVec w) (bits : List Bool) (wider : w ≤ v) (positive : 0 < w) :
    bits.foldl (feed (poly.setWidth v)) (r.setWidth v) = (bits.foldl (feed poly) r).setWidth v := by
  induction bits generalizing r with
  | nil => rfl
  | cons bit bits ih => rw [List.foldl_cons, feed_setWidth _ _ _ wider positive, ih, List.foldl_cons]

/-! ### Recovering the input -/

/-- With feedback into the highest bit, that bit tells which one fell out. -/
theorem shift_top (top : poly.getLsbD (w - 1) = true) : (shift poly r).getLsbD (w - 1) = r.getLsbD 0 := by
  have positive : 0 < w := by
    by_contra none
    rw [BitVec.getLsbD_of_ge poly (w - 1) (by omega)] at top
    cases top
  have outside : r.getLsbD (1 + (w - 1)) = false := BitVec.getLsbD_of_ge r _ (by omega)
  rw [shift, BitVec.getLsbD_xor, BitVec.getLsbD_ushiftRight, outside, Bool.false_xor]
  cases r.getLsbD 0
  · simp
  · simp [top]

theorem shift_injective (top : poly.getLsbD (w - 1) = true) : Function.Injective (shift poly) := by
  intro a b same
  have first : a.getLsbD 0 = b.getLsbD 0 := by
    rw [← shift_top top, ← shift_top (r := b) top, same]
  rw [shift, shift, first] at same
  have upper := (BitVec.xor_left_inj _).mp same
  apply BitVec.eq_of_getLsbD_eq
  intro i _
  cases i with
  | zero => exact first
  | succ i =>
    have bit := congrArg (BitVec.getLsbD · i) upper
    simpa only [BitVec.getLsbD_ushiftRight, Nat.add_comm 1 i] using bit

theorem shifts_injective (top : poly.getLsbD (w - 1) = true) (n : Nat) : Function.Injective (shifts poly n) :=
  (shift_injective top).iterate n

/-- The same input makes different registers of different ones. -/
theorem feeds_injective (top : poly.getLsbD (w - 1) = true) (bits : List Bool) :
    Function.Injective fun r : BitVec w => bits.foldl (feed poly) r := by
  induction bits with
  | nil => exact fun _ _ same => same
  | cons bit bits ih =>
    intro a b same
    exact (BitVec.xor_left_inj _).mp (shift_injective top (ih same))

/-- A register has room for the bits of a block. -/
theorem pack_injective {first second : List Bool} (alike : first.length = second.length) (short : first.length ≤ w)
    (same : (pack first : BitVec w) = pack second) : first = second := by
  refine List.ext_getElem alike fun i inFirst inSecond => ?_
  have bit := congrArg (BitVec.getLsbD · i) same
  simp only [pack_getLsbD, show i < w by omega, decide_true, Bool.true_and, List.getD_eq_getElem?_getD,
    List.getElem?_eq_getElem inFirst, List.getElem?_eq_getElem inSecond, Option.getD_some] at bit
  exact bit

/-- Inputs that differ in one block no longer than the register leave different registers. -/
theorem feeds_block {first second : List Bool} (top : poly.getLsbD (w - 1) = true) (alike : first.length = second.length)
    (short : first.length ≤ w) (differ : first ≠ second) (before after : List Bool) (r : BitVec w) :
    (before ++ first ++ after).foldl (feed poly) r ≠ (before ++ second ++ after).foldl (feed poly) r := by
  intro same
  rw [List.foldl_append, List.foldl_append, List.foldl_append, List.foldl_append] at same
  have inside := feeds_injective top after same
  rw [feed_pack poly _ short, feed_pack poly _ (alike.symm.trans_le short), alike] at inside
  exact differ (pack_injective alike short ((BitVec.xor_right_inj _).mp (shifts_injective top _ inside)))

end

end VoxiUtil.ShiftRegister
