import VoxiUtil.Checksums

/-!
What the checksum of `checksums.c` is for: two messages of one length that differ in a
burst of at most 32 bits have different checksums, whatever was summed before them.
-/
namespace VoxiUtil.ChecksumBursts
open VoxiUtil.CString VoxiUtil.ShiftRegister VoxiUtil.Checksums

/-- The second message is the first with some of its bits wrong, the first and the last
    wrong one less than 32 bits apart. -/
structure Burst (first second : Text) (start : Nat) : Prop where
  alike : first.length = second.length
  differ : first ≠ second
  inside : ∀ i, (bitsOf first)[i]? ≠ (bitsOf second)[i]? → start ≤ i ∧ i < start + 32

section
variable {first second : Text} {start : Nat}

@[simp] theorem bitsOf_length (message : Text) : (bitsOf message).length = 8 * message.length := by
  induction message with
  | nil => rfl
  | cons c message ih =>
    rw [bitsOf, List.flatMap_cons, List.length_append, ← bitsOf, ih]
    simp only [List.length_map, List.length_range, List.length_cons]
    omega

/-- A message is known by its bits. -/
theorem bitsOf_injective (alike : first.length = second.length) (same : bitsOf first = bitsOf second) :
    first = second := by
  induction first generalizing second with
  | nil => exact (List.eq_nil_of_length_eq_zero alike.symm).symm
  | cons c first ih =>
    obtain ⟨d, second, rfl⟩ := List.exists_cons_of_length_eq_add_one alike.symm
    rw [bitsOf, bitsOf, List.flatMap_cons, List.flatMap_cons] at same
    obtain ⟨byte, rest⟩ := List.append_inj same (by simp)
    have bits : c.toBitVec = d.toBitVec := by
      apply BitVec.eq_of_getLsbD_eq
      intro i small
      have bit := congrArg (fun l : List Bool => l[i]?) byte
      simpa only [List.getElem?_map, List.getElem?_range small, Option.map_some, Option.some.injEq] using bit
    rw [UInt8.toBitVec_inj.mp bits, ih (by simpa using alike) rest]

/-- Lists that agree outside of a window are cut into the same two ends around it. -/
private theorem windowed {bits other : List Bool}
    (inside : ∀ i, bits[i]? ≠ other[i]? → start ≤ i ∧ i < start + 32) :
    ∃ before after, bits = before ++ (bits.drop start).take 32 ++ after ∧
      other = before ++ (other.drop start).take 32 ++ after := by
  have front : bits.take start = other.take start := by
    refine List.ext_getElem? fun i => ?_
    by_cases early : i < start
    · rw [List.getElem?_take_of_lt early, List.getElem?_take_of_lt early]
      by_contra differs
      have := (inside i differs).1
      omega
    · rw [List.getElem?_eq_none (by simp; omega), List.getElem?_eq_none (by simp; omega)]
  have back : (bits.drop start).drop 32 = (other.drop start).drop 32 := by
    refine List.ext_getElem? fun i => ?_
    simp only [List.getElem?_drop]
    by_contra differs
    have := (inside _ differs).2
    omega
  refine ⟨bits.take start, (bits.drop start).drop 32, ?_, ?_⟩
  · rw [List.append_assoc, List.take_append_drop, List.take_append_drop]
  · rw [front, back, List.append_assoc, List.take_append_drop, List.take_append_drop]

/-- The bits of a burst leave different registers. -/
theorem crc32_burst (burst : Burst first second start) : crc32 first ≠ crc32 second := by
  have alike : (bitsOf first).length = (bitsOf second).length := by
    rw [bitsOf_length, bitsOf_length, burst.alike]
  obtain ⟨before, after, one, other⟩ := windowed burst.inside
  have differ : ((bitsOf first).drop start).take 32 ≠ ((bitsOf second).drop start).take 32 := by
    intro same
    refine burst.differ (bitsOf_injective burst.alike ?_)
    rw [one, other, same]
  have window : (((bitsOf first).drop start).take 32).length = (((bitsOf second).drop start).take 32).length := by
    simp only [List.length_take, List.length_drop, alike]
  rw [crc32, crc32, one, other]
  intro same
  exact feeds_block (by decide) window (by simp) differ before after _ ((BitVec.xor_left_inj _).mp same)

end

/-- Two calls of `crc32_memory`, one after the other in any program, tell a burst. -/
theorem bursts_detected {w : Nat} (wide : 32 ≤ w) {calls : List Text}
    (earlier : ∀ message ∈ calls, message.length ≤ uintMax) {first second : Text} {start : Nat}
    (small : first.length ≤ uintMax) (burst : Burst first second start) :
    ∃ table sum between other behind, behindCalls (crcTable w) calls = some table ∧
      crc32Memory table first = some (sum, between) ∧ crc32Memory between second = some (other, behind) ∧ sum ≠ other := by
  obtain ⟨table, run, known⟩ := behindCalls_known wide (.inl rfl) earlier
  refine ⟨table, _, _, _, _, run, crc32Memory_known wide known small,
    crc32Memory_known wide (.inr rfl) (burst.alike ▸ small), fun same => crc32_burst burst ?_⟩
  have back := congrArg (BitVec.setWidth 32) same
  simpa only [BitVec.setWidth_setWidth_of_le _ wide, BitVec.setWidth_eq] using back

/-- A turned pair of neighbouring bytes. -/
theorem bursts_detected_swap : ∃ table sum between other behind, behindCalls (crcTable 64) [] = some table ∧
    crc32Memory table [1, 2, 3, 4] = some (sum, between) ∧ crc32Memory between [1, 3, 2, 4] = some (other, behind) ∧
    sum ≠ other := by
  have burst : Burst [1, 2, 3, 4] [1, 3, 2, 4] 0 := by
    refine ⟨rfl, by simp, fun i differs => ?_⟩
    by_contra outside
    refine differs ?_
    rw [List.getElem?_eq_none (by simp; omega), List.getElem?_eq_none (by simp; omega)]
  exact bursts_detected (by decide) (by simp) (by simp [uintMax]) burst

end VoxiUtil.ChecksumBursts
