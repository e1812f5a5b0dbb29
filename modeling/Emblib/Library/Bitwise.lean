import Mathlib.Data.Int.Bitwise
import Emblib.Library.Integers

/-! The bits of an integer, in two's complement with infinitely many sign bits, and the bitwise operators of
integer types: the operands are promoted and converted to a common type before the operation. -/
namespace Emblib.Bitwise
open Integers

variable {type other : IntType} {x y : Int} {count i k n : Nat}

/-! ## Bits of an integer -/

theorem testBit_eq (x : Int) (i : Nat) : x.testBit i = decide (x / 2 ^ i % 2 = 1) := by
  cases x with
  | ofNat m =>
    have bit := Nat.testBit_eq_decide_div_mod_eq (x := m) (i := i)
    have cast : ((m : Int) / 2 ^ i % 2 = 1) ↔ m / 2 ^ i % 2 = 1 := by
      norm_cast
    simpa only [Int.testBit, Int.ofNat_eq_natCast, cast] using bit
  | negSucc m =>
    have bit := Nat.testBit_eq_decide_div_mod_eq (x := m) (i := i)
    have positive : (0 : Int) < 2 ^ i := Int.pow_pos two_pos
    have quotient : Int.negSucc m / 2 ^ i = -((m : Int) / 2 ^ i + 1) := Int.negSucc_ediv m positive
    have cast : ((m : Int) / 2 ^ i) = ((m / 2 ^ i : Nat) : Int) := by norm_cast
    rw [quotient, cast, Int.testBit, bit]
    by_cases odd : m / 2 ^ i % 2 = 1
    · rw [decide_eq_true odd, decide_eq_false (by omega)]
      rfl
    · rw [decide_eq_false odd, decide_eq_true (by omega)]
      rfl

/-- The lower bits depend on the value modulo a power of two only. -/
theorem testBit_modEq (same : x ≡ y [ZMOD 2 ^ k]) (low : i < k) : x.testBit i = y.testBit i := by
  obtain ⟨c, difference⟩ := same.dvd
  obtain ⟨d, rfl⟩ := Nat.exists_eq_add_of_lt low
  have positive : (0 : Int) < 2 ^ i := Int.pow_pos two_pos
  have sum : y = x + 2 ^ i * (2 * (2 ^ d * c)) := by
    calc y = x + 2 ^ (i + d + 1) * c := by omega
      _ = x + 2 ^ i * (2 * (2 ^ d * c)) := by
        rw [Int.pow_succ, pow_add, mul_comm _ (2 : Int), mul_assoc, mul_assoc, mul_left_comm]
  have parity : y / 2 ^ i % 2 = x / 2 ^ i % 2 := by
    rw [sum, Int.add_mul_ediv_left _ _ positive.ne', Int.add_mul_emod_self_left]
  rw [testBit_eq, testBit_eq, parity]

theorem testBit_div (x : Int) (n i : Nat) : (x / 2 ^ n).testBit i = x.testBit (n + i) := by
  have nonneg : (0 : Int) ≤ 2 ^ n := (Int.pow_pos two_pos).le
  rw [testBit_eq, testBit_eq, Int.ediv_ediv_of_nonneg nonneg, ← pow_add]

theorem testBit_mul (x : Int) (n i : Nat) :
    (x * 2 ^ n).testBit i = (decide (n ≤ i) && x.testBit (i - n)) := by
  have positive : (0 : Int) < 2 ^ n := Int.pow_pos two_pos
  by_cases inside : n ≤ i
  · obtain ⟨j, rfl⟩ := Nat.exists_eq_add_of_le inside
    rw [← testBit_div, Int.mul_ediv_cancel _ positive.ne', Nat.add_sub_cancel_left]
    simp
  · have zero : x * 2 ^ n ≡ 0 [ZMOD 2 ^ n] := (Int.modEq_zero_iff_dvd).mpr (Dvd.intro_left x rfl)
    rw [testBit_modEq zero (not_le.mp inside)]
    simp [inside, testBit_eq]

/-- A number that is not negative has no bits above its size. -/
theorem testBit_high (nonneg : 0 ≤ x) (below : x < 2 ^ k) (high : k ≤ i) : x.testBit i = false := by
  lift x to Nat using nonneg
  have bound : x < 2 ^ i := lt_of_lt_of_le (by exact_mod_cast below) (Nat.pow_le_pow_right Nat.two_pos high)
  exact Nat.testBit_eq_false_of_lt bound

theorem eq_of_testBit (nonneg : 0 ≤ x) (below : x < 2 ^ k) (nonneg' : 0 ≤ y) (below' : y < 2 ^ k)
    (same : ∀ i < k, x.testBit i = y.testBit i) : x = y := by
  have everywhere (i : Nat) : x.testBit i = y.testBit i := by
    by_cases low : i < k
    · exact same i low
    · rw [testBit_high nonneg below (not_lt.mp low), testBit_high nonneg' below' (not_lt.mp low)]
  lift x to Nat using nonneg
  lift y to Nat using nonneg'
  exact congrArg Nat.cast (Nat.eq_of_testBit_eq everywhere)

theorem testBit_mod (x : Int) (k i : Nat) : (x % 2 ^ k).testBit i = (decide (i < k) && x.testBit i) := by
  have positive : (0 : Int) < 2 ^ k := Int.pow_pos two_pos
  by_cases low : i < k
  · rw [testBit_modEq (Int.mod_modEq x (2 ^ k)) low]
    simp [low]
  · rw [testBit_high (Int.emod_nonneg x positive.ne') (Int.emod_lt_of_pos x positive) (not_lt.mp low)]
    simp [low]

/-- A conversion keeps the bits that the type has. -/
theorem testBit_convert (x : Int) (low : i < type.bits) : (convert type x).val.testBit i = x.testBit i :=
  testBit_modEq (convert_modEq type x) low

/-! ## Values that are not negative -/

/-- The number of bits that a value can have which is not negative. -/
def width (type : IntType) : Nat := if type.signed then type.bits - 1 else type.bits

theorem upper_eq (type : IntType) : type.upper = 2 ^ width type := by
  have doubled : (2 : Int) ^ type.bits = 2 * 2 ^ (type.bits - 1) := by
    rw [← Int.pow_succ', Nat.sub_add_cancel type.positive]
  unfold IntType.upper IntType.lower width
  split <;> omega

theorem fits_iff (nonneg : 0 ≤ x) : Fits type x ↔ x < 2 ^ width type := by
  have zero := (fits_zero type).1
  rw [Fits, upper_eq]
  exact and_iff_right (zero.trans nonneg)

theorem convert_nonneg (nonneg : 0 ≤ x) (below : x < 2 ^ width type) : (convert type x).val = x := by
  rw [convert_fits ((fits_iff nonneg).mpr below)]

theorem fits_wider (nonneg : 0 ≤ x) (fits : Fits type x) (wider : width type ≤ width other) :
    Fits other x :=
  (fits_iff nonneg).mpr (((fits_iff nonneg).mp fits).trans_le (pow_le_pow_right₀ one_le_two wider))

theorem lor_bound (nonneg : 0 ≤ x) (below : x < 2 ^ k) (nonneg' : 0 ≤ y) (below' : y < 2 ^ k) :
    0 ≤ x.lor y ∧ x.lor y < 2 ^ k := by
  lift x to Nat using nonneg
  lift y to Nat using nonneg'
  have bound : x ||| y < 2 ^ k := Nat.or_lt_two_pow (by exact_mod_cast below) (by exact_mod_cast below')
  have cast : ((x ||| y : Nat) : Int) < 2 ^ k := by exact_mod_cast bound
  exact ⟨Int.natCast_nonneg (x ||| y), cast⟩

theorem land_bound (nonneg : 0 ≤ x) (below : x < 2 ^ k) (nonneg' : 0 ≤ y) :
    0 ≤ x.land y ∧ x.land y < 2 ^ k := by
  lift x to Nat using nonneg
  lift y to Nat using nonneg'
  have bound : x &&& y < 2 ^ k := Nat.and_le_left.trans_lt (by exact_mod_cast below)
  have cast : ((x &&& y : Nat) : Int) < 2 ^ k := by exact_mod_cast bound
  exact ⟨Int.natCast_nonneg (x &&& y), cast⟩

/-! ## Operators -/

/-- The type that two promoted operands are converted to. -/
def common (type other : IntType) : IntType :=
  if type.bits < other.bits then other
  else if other.bits < type.bits then type
  else ⟨type.bits, type.signed && other.signed, type.positive⟩

theorem bits_promote (intBits : Nat) (type : IntType) : type.bits ≤ (promote intBits type).bits := by
  unfold promote
  split
  · exact Nat.le_of_lt ‹_›
  · exact le_rfl

theorem bits_common (type other : IntType) :
    type.bits ≤ (common type other).bits ∧ other.bits ≤ (common type other).bits := by
  unfold common
  split
  · exact ⟨Nat.le_of_lt ‹_›, le_rfl⟩
  split
  · exact ⟨le_rfl, Nat.le_of_lt ‹_›⟩
  · exact ⟨le_rfl, not_lt.mp ‹_›⟩

theorem width_bits (type : IntType) : type.bits - 1 ≤ width type ∧ width type ≤ type.bits := by
  unfold width
  split <;> omega

theorem width_common (type other : IntType) :
    width type ≤ width (common type other) ∧ width other ≤ width (common type other) := by
  have left := width_bits type
  have right := width_bits other
  unfold common
  split
  · omega
  split
  · omega
  · have same : type.bits = other.bits := by omega
    unfold width
    cases type.signed <;> cases other.signed <;> simp [same]

theorem common_self (type : IntType) : common type type = type := by
  simp [common]

/-- A value with its type. -/
structure Number where
  type : IntType
  value : Value type

namespace Number

def val (x : Number) : Int := x.value.val

/-- The value that the type has for a number. -/
def of (type : IntType) (x : Int) : Number := ⟨type, convert type x⟩

theorem of_val (fits : Fits type x) : (of type x).val = x := by
  rw [of, val, convert_fits fits]

variable (intBits : Nat)

def commonType (x y : Number) : IntType := common (promote intBits x.type) (promote intBits y.type)

def and (x y : Number) : Number :=
  let type := commonType intBits x y
  of type ((of type x.val).val.land (of type y.val).val)

def or (x y : Number) : Number :=
  let type := commonType intBits x y
  of type ((of type x.val).val.lor (of type y.val).val)

def not (x : Number) : Number :=
  let type := promote intBits x.type
  of type (of type x.val).val.lnot

/-- A sum, which is undefined if it overflows a signed type. -/
def add (x y : Number) : Option Number :=
  let type := commonType intBits x y
  (evaluate type ((of type x.val).val + (of type y.val).val)).map (Number.mk type)

/-- The shift of the promoted operand, by less than its bits. -/
def shiftLeft (x : Number) (count : Nat) : Number := of (promote intBits x.type) (x.val * 2 ^ count)

def shiftRight (x : Number) (count : Nat) : Number := of (promote intBits x.type) (x.val / 2 ^ count)

/-! The bits of the result that both operands have. -/

section Bits
variable {intBits} {x y : Number} {first : Number} {rest : List Number}

theorem bits_left (intBits : Nat) (x y : Number) : x.type.bits ≤ (commonType intBits x y).bits :=
  (bits_promote intBits x.type).trans (bits_common _ _).1

theorem and_bit (low : i < x.type.bits) :
    (and intBits x y).val.testBit i = (x.val.testBit i && y.val.testBit i) := by
  have inside := low.trans_le (bits_left intBits x y)
  simp only [and, of, val, testBit_convert _ inside, Int.testBit_land]

theorem or_bit (low : i < x.type.bits) :
    (or intBits x y).val.testBit i = (x.val.testBit i || y.val.testBit i) := by
  have inside := low.trans_le (bits_left intBits x y)
  simp only [or, of, val, testBit_convert _ inside, Int.testBit_lor]

theorem not_bit (low : i < x.type.bits) : (not intBits x).val.testBit i = !x.val.testBit i := by
  have inside := low.trans_le (bits_promote intBits x.type)
  simp only [not, of, val, testBit_convert _ inside, Int.testBit_lnot]

theorem shiftLeft_bit (low : i < x.type.bits) (count : Nat) :
    (shiftLeft intBits x count).val.testBit i = (decide (count ≤ i) && x.val.testBit (i - count)) := by
  have inside := low.trans_le (bits_promote intBits x.type)
  simp only [shiftLeft, of, val, testBit_convert _ inside, testBit_mul]

/-! Operands that are not negative keep their values. -/

theorem common_keeps (intBits : Nat) (nonneg : 0 ≤ x.val) (y : Number) :
    (of (commonType intBits x y) x.val).val = x.val ∧ x.val < 2 ^ width (commonType intBits x y) := by
  have promoted := fits_promote intBits x.value.fits
  have wider := (width_common (promote intBits x.type) (promote intBits y.type)).1
  have fits := (fits_iff nonneg).mp (fits_wider nonneg promoted wider)
  exact ⟨convert_nonneg nonneg fits, fits⟩

theorem common_keeps_right (intBits : Nat) (x : Number) (nonneg : 0 ≤ y.val) :
    (of (commonType intBits x y) y.val).val = y.val ∧ y.val < 2 ^ width (commonType intBits x y) := by
  have promoted := fits_promote intBits y.value.fits
  have wider := (width_common (promote intBits x.type) (promote intBits y.type)).2
  have fits := (fits_iff nonneg).mp (fits_wider nonneg promoted wider)
  exact ⟨convert_nonneg nonneg fits, fits⟩

theorem or_val (intBits : Nat) (nonneg : 0 ≤ x.val) (nonneg' : 0 ≤ y.val) :
    (or intBits x y).val = x.val.lor y.val ∧ 0 ≤ (or intBits x y).val := by
  obtain ⟨left, below⟩ := common_keeps intBits nonneg y
  obtain ⟨right, below'⟩ := common_keeps_right intBits x nonneg'
  obtain ⟨least, bound⟩ := lor_bound nonneg below nonneg' below'
  have same : (or intBits x y).val = x.val.lor y.val := by
    simp only [or, left, right]
    exact convert_nonneg least bound
  exact ⟨same, same ▸ least⟩

theorem and_val (intBits : Nat) (nonneg : 0 ≤ x.val) (nonneg' : 0 ≤ y.val) :
    (and intBits x y).val = x.val.land y.val := by
  obtain ⟨left, below⟩ := common_keeps intBits nonneg y
  obtain ⟨right, _⟩ := common_keeps_right intBits x nonneg'
  obtain ⟨least, bound⟩ := land_bound nonneg below nonneg'
  simp only [and, left, right]
  exact convert_nonneg least bound

theorem shiftRight_val (nonneg : 0 ≤ x.val) (count : Nat) :
    (shiftRight intBits x count).val = x.val / 2 ^ count := by
  have fits := (fits_iff nonneg).mp (fits_promote intBits x.value.fits)
  have smaller : x.val / 2 ^ count ≤ x.val := Int.ediv_le_self _ nonneg
  have least : 0 ≤ x.val / 2 ^ count := Int.ediv_nonneg nonneg (Int.pow_pos two_pos).le
  exact convert_nonneg least (smaller.trans_lt fits)

/-- A left fold of `|` over operands of any types. -/
theorem foldl_or_bit (nonneg : 0 ≤ first.val) (all : ∀ x ∈ rest, 0 ≤ x.val) :
    0 ≤ (rest.foldl (or intBits) first).val ∧
      ∀ i, (rest.foldl (or intBits) first).val.testBit i = (first :: rest).any fun x => x.val.testBit i := by
  induction rest generalizing first with
  | nil => exact ⟨nonneg, fun i => by simp⟩
  | cons next rest ih =>
    obtain ⟨same, least⟩ := or_val intBits nonneg (all next List.mem_cons_self)
    obtain ⟨final, bits⟩ := ih least fun x member => all x (List.mem_cons_of_mem next member)
    refine ⟨final, fun i => ?_⟩
    rw [List.foldl_cons, bits i]
    simp only [List.any_cons, same, Int.testBit_lor, Bool.or_assoc]

/-- The fold as a union of sets of bits. -/
theorem foldl_or_val (nonneg : 0 ≤ first.val) (all : ∀ x ∈ rest, 0 ≤ x.val) :
    (rest.foldl (or intBits) first).val =
      ((rest.map fun x => x.val.toNat).foldl (· ||| ·) first.val.toNat : Nat) := by
  induction rest generalizing first with
  | nil => exact (Int.toNat_of_nonneg nonneg).symm
  | cons next rest ih =>
    obtain ⟨second, others⟩ := List.forall_mem_cons.mp all
    obtain ⟨same, least⟩ := or_val intBits nonneg second
    have union : (or intBits first next).val.toNat = first.val.toNat ||| next.val.toNat := by
      rw [same]
      lift first.val to Nat using nonneg with a
      lift next.val to Nat using second with b
      rfl
    rw [List.foldl_cons, ih least others, List.map_cons, List.foldl_cons, union]

/-- A sum in the type that both operands are promoted to. -/
theorem add_promoted (left : promote intBits x.type = type) (right : promote intBits y.type = type) :
    add intBits x y = (evaluate type (x.val + y.val)).map (Number.mk type) := by
  have fits := fits_promote intBits x.value.fits
  have fits' := fits_promote intBits y.value.fits
  rw [left] at fits
  rw [right] at fits'
  have same : commonType intBits x y = type := by rw [commonType, left, right, common_self]
  simp only [add]
  rw [same]
  simp only [of, val, convert_fits fits, convert_fits fits']

end Bits
end Number

end Emblib.Bitwise
