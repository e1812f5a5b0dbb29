import Mathlib.Tactic.NormNum.Prime
import Emblib.Library.CrcPeriod
import Emblib.NvmFaults

/-! `erase` leaves nothing that can be read. A frame of zeros fails the check of the hash, unless
the name hashes to zero; then it fails the check of the CRC, because a CRC-32 of zeros is not zero
as long as it is of fewer bytes than the polynomial has nonzero remainders. -/
namespace Emblib.NvmErase
open Programs ByteMemory Function NvmHash NvmLayout NvmRegistry NvmStore NvmFaults

/-! ## The CRC of zeros -/

/-- The digits of a number below `2 ^ 32`. -/
def digits (n : Nat) : List Bool := (List.range 32).map fun i => n.testBit (31 - i)

/-- Shifting the initial register so often leads elsewhere. -/
def Elsewhere (n : Nat) : Prop :=
  Crc.exponent (digits n) = n ∧
    Crc.multiply poly (Crc.power poly (digits n)) (BitVec.allOnes 32) 32 ≠ BitVec.allOnes 32

instance (n : Nat) : Decidable (Elsewhere n) := inferInstanceAs (Decidable (_ ∧ _))

theorem not_periodic {n : Nat} (elsewhere : Elsewhere n) :
    ¬IsPeriodicPt (Crc.shift poly) n (BitVec.allOnes 32) := by
  intro periodic
  have computed := @Crc.shifts_power _ poly (digits n) (BitVec.allOnes 32)
  rw [elsewhere.1] at computed
  exact elsewhere.2 (computed.symm.trans periodic)

/-- The number of nonzero remainders. -/
def remainders : Nat := 2 ^ 32 - 1

theorem shift_periodic : IsPeriodicPt (Crc.shift poly) remainders (BitVec.allOnes 32) := by
  have whole : Crc.exponent (digits remainders) = remainders := by decide +kernel
  have computed := @Crc.shifts_power _ poly (digits remainders) (BitVec.allOnes 32)
  have back : Crc.multiply poly (Crc.power poly (digits remainders)) (BitVec.allOnes 32) 32 =
      BitVec.allOnes 32 := by
    decide +kernel
  rw [whole, back] at computed
  exact computed

theorem remainders_factors {p : Nat} (prime : p.Prime) (divides : p ∣ remainders) :
    p = 3 ∨ p = 5 ∨ p = 17 ∨ p = 257 ∨ p = 65537 := by
  have product : remainders = 3 * (5 * (17 * (257 * 65537))) := rfl
  rw [product] at divides
  have same {q : Nat} (other : q.Prime) (divides : p ∣ q) : p = q :=
    (Nat.prime_dvd_prime_iff_eq prime other).mp divides
  rcases (Nat.Prime.dvd_mul prime).mp divides with divides | divides
  · exact .inl (same (by norm_num) divides)
  rcases (Nat.Prime.dvd_mul prime).mp divides with divides | divides
  · exact .inr (.inl (same (by norm_num) divides))
  rcases (Nat.Prime.dvd_mul prime).mp divides with divides | divides
  · exact .inr (.inr (.inl (same (by norm_num) divides)))
  rcases (Nat.Prime.dvd_mul prime).mp divides with divides | divides
  · exact .inr (.inr (.inr (.inl (same (by norm_num) divides))))
  · exact .inr (.inr (.inr (.inr (same (by norm_num) divides))))

/-- The variable has the greatest order that it can have: the polynomial is primitive. -/
theorem shift_period {count : Nat} (again : IsPeriodicPt (Crc.shift poly) count (BitVec.allOnes 32)) :
    remainders ∣ count := by
  refine Crc.least_period shift_periodic (fun p prime divides => ?_) again
  rcases remainders_factors prime divides with rfl | rfl | rfl | rfl | rfl
  · exact not_periodic (by decide +kernel)
  · exact not_periodic (by decide +kernel)
  · exact not_periodic (by decide +kernel)
  · exact not_periodic (by decide +kernel)
  · exact not_periodic (by decide +kernel)

/-- The CRC of zeros, fewer bytes than there are nonzero remainders, is not zero. -/
theorem crc32_zeros {first second : Nat} (nonempty : 0 < first + second)
    (fewer : first + second < remainders) :
    crc32 (List.replicate first 0) (List.replicate second 0) ≠ 0 := by
  intro zero
  have final : (List.replicate (first + second) 0).foldl crcUpdate 0xFFFFFFFF = 0xFFFFFFFF := by
    rw [← List.replicate_append_replicate, List.foldl_append]
    exact UInt32.xor_eq_zero_iff.mp zero
  have again : IsPeriodicPt (Crc.shift poly) (8 * (first + second)) (BitVec.allOnes 32) := by
    have register := congrArg UInt32.toBitVec final
    rw [foldl_register, List.map_replicate] at register
    exact (Crc.register_zeros _ _).symm.trans register
  have coprime : Nat.Coprime remainders 8 := by decide +kernel
  have divides := coprime.dvd_of_dvd_mul_left (shift_period again)
  exact Nat.not_le.mpr fewer (Nat.le_of_dvd nonempty divides)

/-! ## `erase` -/

/-- The zero bytes that it writes. -/
def zeroWrites (off count : Nat) : List Write := (List.range' off count).map (·, [0])

/-- A failed write changes nothing. -/
def unchanged (_ : Write) (memory other : Memory) : Prop := other = memory

theorem eraseFrom_writes (count off : Nat) :
    Registry.eraseFrom count off = writeAll (zeroWrites off count) := by
  induction count generalizing off with
  | zero => rfl
  | succ count ih =>
    have rest : (fun _ => Registry.eraseFrom count (off + 1)) =
        fun _ : Unit => writeAll (zeroWrites (off + 1) count) := funext fun _ => ih (off + 1)
    rw [Registry.eraseFrom, rest]
    rfl

theorem patchAll_zeroWrites (memory : Memory) (off count : Nat) :
    patchAll memory (zeroWrites off count) = patch memory off (List.replicate count 0) := by
  induction count generalizing memory off with
  | zero => exact patch_nil.symm
  | succ count ih =>
    have first : patchAll memory (zeroWrites off (count + 1)) =
        patchAll (patch memory off [0]) (zeroWrites (off + 1) count) := rfl
    rw [first, ih]
    exact patch_append [0] (List.replicate count 0)

/-- The writes before one of them are the zeros of the addresses below. -/
theorem zeroWrites_split {off count : Nat} {done rest : List Write} {failing : Write}
    (shape : zeroWrites off count = done ++ failing :: rest) :
    ∃ erased < count, done = zeroWrites off erased ∧ failing = (off + erased, [0]) := by
  obtain ⟨below, above, addresses, rfl, behind⟩ := List.map_eq_append_iff.mp shape
  obtain ⟨erased, inside, rfl, rfl⟩ := List.range'_eq_append_iff.mp addresses
  obtain ⟨address, _, next, rfl, _⟩ := List.map_eq_cons_iff.mp behind
  obtain ⟨rfl, more, _⟩ := List.range'_eq_cons_iff.mp next
  exact ⟨erased, by omega, rfl, by rw [Nat.mul_one]⟩

variable {layout : Layout} {index : layout.Index} {memory : Memory} {order : ByteOrder}

/-- A slice of an erased range is zeros. -/
theorem slice_erased {off size start count : Nat} (low : off ≤ start)
    (high : start + count ≤ off + size) :
    slice (patch memory off (List.replicate size 0)) start count = List.replicate count 0 := by
  apply List.ext_getElem?
  intro position
  rw [slice_getElem?, List.getElem?_replicate]
  split
  · have inside : start + position - off < size := by omega
    have above : off ≤ start + position := by omega
    simp [patch, above, inside]
  · rfl

/-- An erased frame is not read, even if its name hashes to zero. -/
theorem readFrame_erased (standard : layout.crcFn = crc32Fn order)
    (named : layout.hashFn = fnv1a32Fn order)
    (short : layout.sizes index + layout.overhead < 2 ^ 32 - 1) :
    readFrame layout index (patch memory layout.base (List.replicate layout.size 0)) =
        .error .hashMismatch ∨
      readFrame layout index (patch memory layout.base (List.replicate layout.size 0)) =
        .error .crcMismatch := by
  have pieces : Pieces layout index (List.replicate layout.hashFn.size 0)
      (List.replicate (layout.sizes index) 0) (List.replicate layout.crcFn.size 0)
      (patch memory layout.base (List.replicate layout.size 0)) := by
    have low := @base_le_offsetOf layout index
    have high := frame_inside index
    unfold Layout.overhead at high
    exact ⟨slice_erased low (by omega), slice_erased (by omega) (by omega),
      slice_erased (by omega) (by omega)⟩
  have hashSize : layout.hashFn.size = 4 := congrArg HashFn.size named
  rw [pieces_read pieces]
  by_cases zero : List.replicate layout.hashFn.size 0 = layout.hashes index
  · -- the check of the hash passes, so the CRC decides
    have crc : List.replicate layout.crcFn.size 0 ≠
        layout.crcFn.crc (layout.hashes index) (List.replicate (layout.sizes index) 0) := by
      rw [← zero, standard, hashSize]
      intro same
      have bound := (crc32 (List.replicate 4 0) (List.replicate (layout.sizes index) 0)).toNat_lt
      have none := (encode_eq_zeros (by simpa using bound)).mp same.symm
      refine crc32_zeros (by omega) ?_ (UInt32.toNat_inj.mp none)
      unfold Layout.overhead at short
      unfold remainders
      omega
    rw [if_neg (not_not.mpr zero), if_pos crc]
    exact .inr rfl
  · rw [if_pos zero]
    exact .inl rfl

/-- What `erase` leaves, and what it returns and has issued. -/
structure ErasesCleanly (registry : Registry capacity) (memory : Memory)
    (result : Except NvmError Unit) (after : Journal) : Prop where
  outside : Confined registry.layout.base registry.layout.size memory after.memory
  unreadable : result = .ok () → ∀ name,
    (run plain (registry.get name) after.memory).1 = .error .hashMismatch ∨
    (run plain (registry.get name) after.memory).1 = .error .crcMismatch
  stopped : ∀ e, result = .error e → ∃ erased < registry.layout.size,
    after.log = succeeded (zeroWrites registry.layout.base erased) ++
        [((registry.layout.base + erased, [0]), .error e)] ∧
      after.memory = patch memory registry.layout.base (List.replicate erased 0)

/-- **Nothing is readable after `erase`.** -/
theorem erase_cleanly {capacity : Nat} {registry : Registry capacity} {order : ByteOrder}
    {memory : Memory} {result : Except NvmError Unit} {after : Journal}
    (named : registry.layout.hashFn = fnv1a32Fn order)
    (standard : registry.layout.crcFn = crc32Fn order)
    (short : ∀ index, registry.layout.sizes index + registry.layout.overhead < 2 ^ 32 - 1)
    (completes : Completes (faulty unchanged) registry.erase ⟨memory, []⟩ result after) :
    ErasesCleanly registry memory result after := by
  rw [Registry.erase, eraseFrom_writes] at completes
  cases writeAll_outcome _ completes with
  | complete =>
    rw [patchAll_zeroWrites]
    refine ⟨?_, fun _ name => ?_, fun e failed => ?_⟩
    · have confined := @confined_patch memory registry.layout.base (List.replicate registry.layout.size 0)
      rwa [List.length_replicate] at confined
    · rw [run_get]
      exact readFrame_erased standard named (short name.index)
    · cases failed
  | @failed done failing rest left e shape kept =>
    obtain ⟨erased, inside, rfl, rfl⟩ := zeroWrites_split shape
    obtain rfl : left = _ := kept
    rw [patchAll_zeroWrites]
    refine ⟨?_, fun succeeded => ?_, fun e' same => ?_⟩
    · intro address outside
      refine confined_patch address ?_
      rw [List.length_replicate]
      omega
    · cases succeeded
    · cases same
      exact ⟨erased, inside, rfl, rfl⟩

/-- A backend without failures, and its journal. -/
def journaled : (call : Call) → Journal → Reply call × Journal
  | .read addr size, state => (.ok (slice state.memory addr size), state)
  | .write addr bytes, state =>
    (.ok (), ⟨patch state.memory addr bytes, state.log ++ [((addr, bytes), .ok ())]⟩)

theorem journaled_answers {leaves : Write → Memory → Memory → Prop} (call : Call) (state : Journal) :
    (faulty leaves).answers call state (journaled call state).1 (journaled call state).2 := by
  cases call with
  | read addr size => exact ⟨rfl, rfl⟩
  | write addr bytes => exact ⟨rfl, .inl ⟨rfl, rfl⟩⟩

/-- All bytes are written, or the second one cannot be. -/
theorem erase_cleanly_testing :
    let registry := NvmTornSet.testingRegistry
    let memory : Memory := fun _ => 255
    ErasesCleanly registry memory (.ok ()) (run journaled registry.erase ⟨memory, []⟩).2 ∧
      ErasesCleanly registry memory (.error .timeout)
        ⟨patch memory 0 [0], [((0, [0]), .ok ()), ((1, [0]), .error .timeout)]⟩ := by
  intro registry memory
  have short : ∀ index, registry.layout.sizes index + registry.layout.overhead < 2 ^ 32 - 1 := by decide
  constructor
  · have ended : (run journaled registry.erase ⟨memory, []⟩).1 = .ok () := rfl
    have completes := completes_run (@journaled_answers unchanged) registry.erase ⟨memory, []⟩
    rw [ended] at completes
    exact @erase_cleanly _ registry .little memory _ _ rfl rfl short completes
  · refine @erase_cleanly _ registry .little memory _ _ rfl rfl short ?_
    exact ⟨.ok (), ⟨patch memory 0 [0], [((0, [0]), .ok ())]⟩, ⟨rfl, .inl ⟨rfl, rfl⟩⟩,
      .error .timeout, ⟨patch memory 0 [0], _⟩, ⟨rfl, .inr ⟨.timeout, rfl, rfl⟩⟩, rfl, rfl⟩

end Emblib.NvmErase
