import VoxiUtil.CString
import VoxiUtil.Runs
import VoxiUtil.ShiftRegister

/-!
The checksum of `checksums.c`, a byte at a time from a table that the first call makes,
in an `unsigned long` of `w` bits. It is the checksum of the bits one at a time.
-/
namespace VoxiUtil.Checksums
open VoxiUtil.CString VoxiUtil.ShiftRegister
open VoxiUtil.Runs (assert assert_true)

section
variable (w : Nat)

def poly : BitVec w := 0xEDB88320#w

/-- The inner loop of `gen_table`. -/
def genEntry : Nat → BitVec w → BitVec w
  | 0, crc => crc
  | j + 1, crc => genEntry j (if crc &&& 1#w ≠ 0#w then (crc >>> 1) ^^^ poly w else crc >>> 1)

/-- `gen_table`. -/
def genTable : List (BitVec w) := (List.range 256).map fun i => genEntry w 8 (BitVec.ofNat w i)

/-- `crc_table` when the program starts. -/
def crcTable : List (BitVec w) := 1#w :: List.replicate 255 0#w

variable {w}

/-- The loop of `crc32_memory`, whose counter is an `unsigned int`; none behind the end of the memory. -/
def crcLoop (table : List (BitVec w)) (byteCount : Nat) : UInt32 → Text → BitVec w → Option (BitVec w)
  | i, memory, crc =>
    if i.toNat < byteCount then
      match memory with
      | [] => none
      | c :: memory => do
        let entry ← table[((crc ^^^ BitVec.ofNat w c.toNat) &&& 0xFF#w).toNat]?
        crcLoop table byteCount (i + 1) memory ((crc >>> 8) ^^^ entry)
    else some crc

/-- `crc32_memory`: the checksum and `crc_table` behind the call. -/
def crc32Memory (table : List (BitVec w)) (memory : Text) : Option (BitVec w × List (BitVec w)) := do
  let first ← table[0]?
  if first = 1#w then
    let first ← (genTable w)[0]?
    assert (first ≠ 1#w)
    let crc ← crcLoop (genTable w) memory.length 0 memory 0xFFFFFFFF#w
    return (crc ^^^ 0xFFFFFFFF#w, genTable w)
  else
    let crc ← crcLoop table memory.length 0 memory 0xFFFFFFFF#w
    return (crc ^^^ 0xFFFFFFFF#w, table)

/-- `crc_table` behind calls one after another. -/
def behindCalls (table : List (BitVec w)) (calls : List Text) : Option (List (BitVec w)) :=
  calls.foldlM (fun table memory => (crc32Memory table memory).map Prod.snd) table

end

/-- The largest `unsigned int`. -/
def uintMax : Nat := 4294967295

/-- The bits of a message, each byte's lowest first. -/
def bitsOf (message : Text) : List Bool := message.flatMap fun c => (List.range 8).map c.toBitVec.getLsbD

/-- The reflected checksum of 32 bits, over one bit of the message after another. -/
def crc32 (message : Text) : BitVec 32 :=
  (bitsOf message).foldl (feed 0xEDB88320#32) 0xFFFFFFFF#32 ^^^ 0xFFFFFFFF#32

section
variable {w : Nat} {crc : BitVec w} {message : Text}

theorem low_bit (crc : BitVec w) (wide : 0 < w) : crc &&& 1#w ≠ 0#w ↔ crc.getLsbD 0 = true := by
  constructor
  · intro set
    by_contra clear
    rw [Bool.not_eq_true] at clear
    refine set (BitVec.eq_of_getLsbD_eq fun i small => ?_)
    rw [BitVec.getLsbD_and, BitVec.getLsbD_one, BitVec.getLsbD_zero]
    by_cases zero : i = 0
    · simp [zero, clear]
    · simp [zero]
  · intro set zero
    have bit : (crc &&& 1#w).getLsbD 0 = false := by rw [zero, BitVec.getLsbD_zero]
    rw [BitVec.getLsbD_and, BitVec.getLsbD_one, set] at bit
    simp [wide] at bit

/-- An entry is eight shifts of its index. -/
theorem genEntry_shifts (n : Nat) (crc : BitVec w) (wide : 0 < w) : genEntry w n crc = shifts (poly w) n crc := by
  induction n generalizing crc with
  | zero => rfl
  | succ n ih =>
    rw [genEntry, ih, shifts_succ, shift]
    by_cases bit : crc.getLsbD 0 = true
    · rw [if_pos ((low_bit crc wide).mpr bit), if_pos bit]
    · rw [if_neg (fun set => bit ((low_bit crc wide).mp set)), if_neg bit, BitVec.xor_zero]

theorem genTable_entry {index : Nat} (small : index < 256) (wide : 0 < w) :
    (genTable w)[index]? = some (shifts (poly w) 8 (BitVec.ofNat w index)) := by
  rw [genTable, List.getElem?_map, List.getElem?_range small, Option.map_some, genEntry_shifts _ _ wide]

/-- A byte's bits as a register are the byte. -/
theorem pack_byte (w : Nat) (c : UInt8) : pack ((List.range 8).map c.toBitVec.getLsbD) = BitVec.ofNat w c.toNat := by
  apply BitVec.eq_of_getLsbD_eq
  intro i small
  have bit : c.toBitVec.getLsbD i = c.toNat.testBit i := rfl
  rw [pack_getLsbD, BitVec.getLsbD_ofNat, List.getD_eq_getElem?_getD, List.getElem?_map]
  by_cases inside : i < 8
  · rw [List.getElem?_range inside, Option.map_some, Option.getD_some, bit]
  · have above : c.toNat.testBit i = false :=
      Nat.testBit_lt_two_pow (c.toNat_lt.trans_le (Nat.pow_le_pow_right (by decide) (by omega)))
    simp [inside, above]

/-- The table's entry for the lowest byte is what eight bits of input do. -/
theorem entry_feeds (crc : BitVec w) (c : UInt8) (wide : 8 ≤ w) :
    (genTable w)[((crc ^^^ BitVec.ofNat w c.toNat) &&& 0xFF#w).toNat]?.map (fun entry => (crc >>> 8) ^^^ entry) =
      some (((List.range 8).map c.toBitVec.getLsbD).foldl (feed (poly w)) crc) := by
  have mask : 0xFF < 2 ^ w := Nat.lt_of_lt_of_le (by decide) (Nat.pow_le_pow_right (by decide) wide)
  have index : ((crc ^^^ BitVec.ofNat w c.toNat) &&& 0xFF#w).toNat = (crc ^^^ BitVec.ofNat w c.toNat).toNat % 2 ^ 8 := by
    rw [BitVec.toNat_and, BitVec.toNat_ofNat, Nat.mod_eq_of_lt mask, show 0xFF = 2 ^ 8 - 1 from rfl,
      Nat.and_two_pow_sub_one_eq_mod]
  have small : (crc ^^^ BitVec.ofNat w c.toNat).toNat % 2 ^ 8 < 256 := Nat.mod_lt _ (by decide)
  rw [index, genTable_entry small (by omega), Option.map_some, feed_block _ _ (by simpa using wide), pack_byte]
  simp

/-- The loop over the bytes is one over their bits, as far as its counter reaches. -/
theorem crcLoop_bits {byteCount : Nat} {i : UInt32} (wide : 8 ≤ w) (covered : i.toNat + message.length = byteCount)
    (small : byteCount ≤ uintMax) :
    crcLoop (genTable w) byteCount i message crc = some ((bitsOf message).foldl (feed (poly w)) crc) := by
  induction message generalizing i crc with
  | nil =>
    rw [List.length_nil] at covered
    rw [crcLoop, if_neg (by omega)]
    rfl
  | cons c message ih =>
    rw [List.length_cons] at covered
    have next : (i + 1).toNat = i.toNat + 1 := by
      rw [UInt32.toNat_add, UInt32.toNat_one, Nat.mod_eq_of_lt (by rw [uintMax] at small; omega)]
    obtain ⟨entry, found, fed⟩ := Option.map_eq_some_iff.mp (entry_feeds crc c wide)
    rw [crcLoop, if_pos (by omega)]
    simp only [found, Option.bind_eq_bind, Option.bind_some, fed]
    rw [ih (by omega)]
    simp [bitsOf, List.foldl_append]

theorem genTable_first (wide : 0 < w) : (genTable w)[0]? = some 0#w := by
  rw [genTable_entry (by decide) wide, shifts_clear (by simp)]
  simp

theorem zero_ne_one (wide : 0 < w) : 0#w ≠ 1#w := by
  intro same
  have bit := congrArg BitVec.toNat same
  rw [BitVec.toNat_ofNat, BitVec.toNat_ofNat, Nat.zero_mod, Nat.mod_eq_of_lt (Nat.one_lt_two_pow (by omega))] at bit
  cases bit

/-- What a call returns with either table. -/
theorem crc32Memory_known {table : List (BitVec w)} (wide : 32 ≤ w) (known : table = crcTable w ∨ table = genTable w)
    (small : message.length ≤ uintMax) :
    crc32Memory table message = some ((crc32 message).setWidth w, genTable w) := by
  have checksum : (bitsOf message).foldl (feed (poly w)) 0xFFFFFFFF#w ^^^ 0xFFFFFFFF#w = (crc32 message).setWidth w := by
    have same : ∀ n : Nat, n < 2 ^ 32 → BitVec.ofNat w n = (BitVec.ofNat 32 n).setWidth w := by
      intro n small
      apply BitVec.eq_of_toNat_eq
      rw [BitVec.toNat_setWidth, BitVec.toNat_ofNat, BitVec.toNat_ofNat, Nat.mod_eq_of_lt small]
    have wider : poly w = (0xEDB88320#32).setWidth w := same _ (by decide)
    have ones : 0xFFFFFFFF#w = (0xFFFFFFFF#32).setWidth w := same _ (by decide)
    rw [wider, ones, foldl_setWidth _ _ _ wide (by decide), ← BitVec.setWidth_xor, crc32]
  have looped := @crcLoop_bits w 0xFFFFFFFF#w message message.length 0 (by omega) (Nat.zero_add _) small
  have start : (crcTable w)[0]? = some 1#w := rfl
  have first : (genTable w)[0]? = some 0#w := genTable_first (by omega)
  have made : 0#w ≠ 1#w := zero_ne_one (by omega)
  rcases known with rfl | rfl
  · simp [crc32Memory, start, first, made, looped, checksum]
  · simp [crc32Memory, first, made, looped, checksum]

theorem behindCalls_known {table : List (BitVec w)} {calls : List Text} (wide : 32 ≤ w)
    (known : table = crcTable w ∨ table = genTable w) (small : ∀ message ∈ calls, message.length ≤ uintMax) :
    ∃ behind, behindCalls table calls = some behind ∧ (behind = crcTable w ∨ behind = genTable w) := by
  induction calls generalizing table with
  | nil => exact ⟨table, rfl, known⟩
  | cons message calls ih =>
    obtain ⟨behind, run, still⟩ := ih (.inr rfl) fun other member => small other (List.mem_cons_of_mem _ member)
    refine ⟨behind, ?_, still⟩
    rw [behindCalls, List.foldlM_cons, crc32Memory_known wide known (small message List.mem_cons_self)]
    exact run

end

/-- Every call returns the checksum of the bits one at a time, whatever was called before. -/
theorem crc32Memory_bitwise {w : Nat} (wide : 32 ≤ w) {calls : List Text}
    (earlier : ∀ message ∈ calls, message.length ≤ uintMax) {message : Text} (small : message.length ≤ uintMax) :
    ∃ table behind, behindCalls (crcTable w) calls = some table ∧
      crc32Memory table message = some ((crc32 message).setWidth w, behind) := by
  obtain ⟨table, run, known⟩ := behindCalls_known wide (.inl rfl) earlier
  exact ⟨table, _, run, crc32Memory_known wide known small⟩

theorem crc32Memory_bitwise_long : ∃ table behind, behindCalls (crcTable 64) [lit "first"] = some table ∧
    crc32Memory table (lit "123456789") = some ((crc32 (lit "123456789")).setWidth 64, behind) :=
  crc32Memory_bitwise (by decide) (by decide) (by decide)

example : crc32 (lit "123456789") = 0xCBF43926#32 := by decide +kernel

end VoxiUtil.Checksums
