import Emblib.Library.Crc
import Emblib.Library.Memory

/-! The hash and CRC function objects of the NVM layout, on object bytes. The CRC is
an instance of the reflected CRC with 32 bits, so it never misses a difference that
lies within four consecutive bytes. -/
namespace Emblib.NvmHash
open ByteMemory

/-- `fnv1a_32`: the bytes of a name, its terminator left out. -/
def fnv1a32 (name : List UInt8) : UInt32 :=
  name.foldl (fun h byte => (h ^^^ byte.toUInt32) * 0x01000193) 0x811C9DC5

/-- One of the eight rounds of `crc32::update`. -/
def crcRound (crc : UInt32) : UInt32 := (crc >>> 1) ^^^ (0xEDB88320 &&& (-(crc &&& 1)))

/-- `crc32::update`. -/
def crcUpdate (crc : UInt32) (byte : UInt8) : UInt32 := crcRound^[8] (crc ^^^ byte.toUInt32)

/-- `crc32`: the object bytes of the hash, then those of the value. -/
def crc32 (hash value : List UInt8) : UInt32 :=
  value.foldl crcUpdate (hash.foldl crcUpdate 0xFFFFFFFF) ^^^ 0xFFFFFFFF

/-- The polynomial of `crc32`. -/
def poly : BitVec 32 := 0xEDB88320#32

theorem poly_top : poly.msb = true := by decide

theorem low_bit_mask (crc : BitVec 32) :
    -(crc &&& 1#32) = if crc.getLsbD 0 then BitVec.allOnes 32 else 0#32 := by
  rw [BitVec.and_one_eq_setWidth_ofBool_getLsbD]
  cases crc.getLsbD 0 <;> decide

theorem crcRound_shift (crc : UInt32) : (crcRound crc).toBitVec = Crc.shift poly crc.toBitVec := by
  have mask : (-(crc &&& 1)).toBitVec = -(crc.toBitVec &&& 1#32) := rfl
  have unfolded : (crcRound crc).toBitVec =
      (crc.toBitVec >>> 1) ^^^ (poly &&& -(crc.toBitVec &&& 1#32)) := by
    rw [← mask]
    rfl
  rw [unfolded, low_bit_mask, Crc.shift]
  split
  · rw [BitVec.and_allOnes]
  · rw [BitVec.and_zero]

theorem crcUpdate_update (crc : UInt32) (byte : UInt8) :
    (crcUpdate crc byte).toBitVec = Crc.update poly crc.toBitVec byte.toBitVec := by
  have rounds : ∀ (count : Nat) (word : UInt32),
      (crcRound^[count] word).toBitVec = (Crc.shift poly)^[count] word.toBitVec := by
    intro count
    induction count with
    | zero => exact fun _ => rfl
    | succ count ih =>
      intro word
      rw [Function.iterate_succ, Function.comp_apply, ih, crcRound_shift]
      rfl
  unfold crcUpdate Crc.update
  rw [rounds]
  rfl

theorem foldl_register (bytes : List UInt8) (crc : UInt32) :
    (bytes.foldl crcUpdate crc).toBitVec =
      Crc.register poly crc.toBitVec (bytes.map UInt8.toBitVec) := by
  induction bytes generalizing crc with
  | nil => rfl
  | cons byte bytes ih =>
    rw [List.foldl_cons, ih, crcUpdate_update]
    rfl

/-- Messages that differ only within four consecutive bytes leave different registers. -/
theorem foldl_burst (head tail : List UInt8) {first second : List UInt8}
    (size : first.length = second.length) (short : first.length ≤ 4)
    (same : (head ++ first ++ tail).foldl crcUpdate 0xFFFFFFFF =
      (head ++ second ++ tail).foldl crcUpdate 0xFFFFFFFF) :
    first = second := by
  have registers := congrArg UInt32.toBitVec same
  simp only [foldl_register, List.map_append] at registers
  have bits := Crc.register_burst poly_top (by simpa using size) (by simp; omega) registers
  exact List.map_injective_iff.mpr (fun _ _ => UInt8.toBitVec_inj.mp) bits

/-- Values that differ only within four consecutive bytes have different CRCs. -/
theorem crc32_burst (hash head tail : List UInt8) {first second : List UInt8}
    (size : first.length = second.length) (short : first.length ≤ 4)
    (same : crc32 hash (head ++ first ++ tail) = crc32 hash (head ++ second ++ tail)) :
    first = second := by
  have cancel : ∀ crc : UInt32, crc ^^^ 0xFFFFFFFF ^^^ 0xFFFFFFFF = crc := by
    intro crc
    rw [UInt32.xor_assoc, UInt32.xor_self, UInt32.xor_zero]
  have registers := congrArg (· ^^^ 0xFFFFFFFF) same
  simp only [crc32, cancel, ← List.foldl_append, ← List.append_assoc] at registers
  exact foldl_burst (hash ++ head) tail size short registers

/-! ## A message that ends with its CRC -/

theorem littleEndian_symbols (count : Nat) (word : BitVec w) :
    (littleEndian count word.toNat).map UInt8.toBitVec = Crc.symbols 8 count word := by
  induction count generalizing word with
  | zero => rfl
  | succ count ih =>
    have rest : word.toNat / 256 = (word >>> 8).toNat := by
      rw [BitVec.toNat_ushiftRight, Nat.shiftRight_eq_div_pow]
    rw [littleEndian, List.map_cons, rest, ih, Crc.symbols]
    refine congrArg (· :: _) (BitVec.eq_of_toNat_eq ?_)
    rw [BitVec.toNat_setWidth]
    exact UInt8.toNat_ofNat'

/-- A message followed by its CRC, least significant byte first, leaves this register. -/
def residue : UInt32 := 0xDEBB20E3

theorem crc32_residue (hash value : List UInt8) :
    (hash ++ value ++ littleEndian 4 (crc32 hash value).toNat).foldl crcUpdate 0xFFFFFFFF = residue := by
  apply UInt32.toBitVec_inj.mp
  have message : (crc32 hash value).toBitVec =
      (value.foldl crcUpdate (hash.foldl crcUpdate 0xFFFFFFFF)).toBitVec ^^^
      0xFFFFFFFF#32 := rfl
  have bytes : (littleEndian 4 (crc32 hash value).toNat).map UInt8.toBitVec =
      Crc.symbols 8 4 (crc32 hash value).toBitVec :=
    littleEndian_symbols 4 _
  rw [List.foldl_append, List.foldl_append, foldl_register, bytes, message,
    Crc.register_residue _ _ (Nat.le_refl 32)]
  decide

end Emblib.NvmHash
