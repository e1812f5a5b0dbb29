import Emblib.Angle
import Emblib.Pwm

/-! Values in steps of a fixed ratio, as an integer type holds them. The number of steps is rounded to the nearest
integer, away from zero at a tie, and saturated, first in the type that the rounding returns. What comes
out is the nearest value that the type has, and each value of the type comes back from its number. -/
namespace Emblib.Quantization
open Integers Angle

/-! ## `saturate_round`, `quantize` and `dequantize` -/

section Code
variable {K : Type} [Field K] [LinearOrder K] [FloorRing K]

/-- `std::numeric_limits`. -/
def lowest (type : IntType) : Int := type.lower

def highest (type : IntType) : Int := type.upper - 1

/-- The type that the rounding returns, for the width of `long`. -/
def wide (longType type : IntType) : IntType :=
  let fitsLong := decide (type.bits < longType.bits) || (decide (type.bits = longType.bits) && type.signed)
  if fitsLong then longType else longLong

/-- `std::lround`, `std::llround`: to the nearest integer, away from zero at a tie. -/
def lround (type : IntType) (num : K) : Option Int :=
  let nearest := if 0 ≤ num then ⌊num + 1 / 2⌋ else ⌈num - 1 / 2⌉
  if Fits type nearest then some nearest else none

/-- `std::saturate_cast`. -/
def saturateCast (type : IntType) (num : Int) : Int :=
  if num < lowest type then lowest type else if num > highest type then highest type else num

def saturateRound (longType type : IntType) (num : K) : Option Int :=
  if num ≥ highest (wide longType type) then some (highest type)
  else if num ≤ lowest (wide longType type) then some (lowest type)
  else (lround (wide longType type) num).map (saturateCast type)

/-- A positive `std::ratio`. -/
structure Ratio where
  num : Nat
  den : Nat
  num_pos : 0 < num
  den_pos : 0 < den

def quantize (longType type : IntType) (step : Ratio) (num : K) : Option Int :=
  let scale : K := step.den / step.num
  saturateRound longType type (num * scale)

def dequantize (step : Ratio) (num : Int) : K :=
  let size : K := step.num / step.den
  num * size

end Code

/-! ## The types -/

/-- What the assertion accepts: all types but the unsigned one of 64 bits. -/
structure Accepted (longType type : IntType) : Prop where
  longSigned : longType.signed = true
  width : type.bits < 64 ∨ type.bits = 64 ∧ type.signed = true

variable {longType type : IntType} {n q : Int}

theorem fits_iff : Fits type n ↔ lowest type ≤ n ∧ n ≤ highest type := by
  unfold Fits lowest highest
  omega

/-- A type is contained in every signed one that is wider, or as wide if it is signed. -/
theorem contained {other : IntType} (signed : other.signed = true)
    (wider : type.bits < other.bits ∨ type.bits = other.bits ∧ type.signed = true) :
    lowest other ≤ lowest type ∧ highest type ≤ highest other := by
  have grow (low high : Nat) (le : low ≤ high) : (2 : Int) ^ low ≤ 2 ^ high := pow_le_pow_right₀ one_le_two le
  have half (t : IntType) : (2 : Int) ^ t.bits = 2 * 2 ^ (t.bits - 1) := by
    rw [← Int.pow_succ', Nat.sub_add_cancel t.positive]
  have otherHalf := half other
  have typeHalf := half type
  have positive : (0 : Int) < 2 ^ (type.bits - 1) := Int.pow_pos two_pos
  unfold lowest highest IntType.upper IntType.lower
  rw [if_pos signed]
  rcases wider with less | ⟨same, typeSigned⟩
  · have bigger := grow type.bits (other.bits - 1) (by omega)
    split <;> omega
  · rw [if_pos typeSigned, same]
    omega

theorem wide_contains (accepted : Accepted longType type) :
    lowest (wide longType type) ≤ lowest type ∧ highest type ≤ highest (wide longType type) := by
  unfold wide
  dsimp only
  split
  case isTrue fits =>
    simp only [Bool.or_eq_true, Bool.and_eq_true, decide_eq_true_eq] at fits
    exact contained accepted.longSigned fits
  case isFalse => exact contained rfl accepted.width

/-! ## The rounding -/

variable {K : Type} [Field K] [LinearOrder K] [FloorRing K] [IsStrictOrderedRing K] {x y : K} {p : Int}

theorem lround_near (above : lowest type < x) (below : x < highest type) :
    ∃ nearest : Int, lround type x = some nearest ∧ |(nearest : K) - x| ≤ 1 / 2 := by
  have zero := fits_iff.mp (fits_zero type)
  have half : (0 : K) < 1 / 2 := one_half_pos
  unfold lround
  by_cases nonneg : 0 ≤ x
  · have low := Int.floor_le (x + 1 / 2)
    have high := Int.lt_floor_add_one (x + 1 / 2)
    have inside : Fits type ⌊x + 1 / 2⌋ := by
      apply fits_iff.mpr
      refine ⟨zero.1.trans (Int.floor_nonneg.mpr (by linarith)), ?_⟩
      apply Int.lt_add_one_iff.mp
      rw [Int.floor_lt]
      push_cast
      linarith
    refine ⟨⌊x + 1 / 2⌋, by simp only [if_pos nonneg, if_pos inside], ?_⟩
    rw [abs_le]
    constructor <;> linarith
  · have low := Int.le_ceil (x - 1 / 2)
    have high := Int.ceil_lt_add_one (x - 1 / 2)
    have inside : Fits type ⌈x - 1 / 2⌉ := by
      apply fits_iff.mpr
      refine ⟨?_, le_trans (Int.ceil_le.mpr ?_) zero.2⟩
      · apply Int.sub_one_lt_iff.mp
        rw [Int.lt_ceil]
        push_cast
        linarith
      · rw [Int.cast_zero]
        linarith
    refine ⟨⌈x - 1 / 2⌉, by simp only [if_neg nonneg, if_pos inside], ?_⟩
    rw [abs_le]
    constructor <;> linarith

/-- A value of the type that is as near as it can be. -/
structure Saturated (type : IntType) (x : K) (q : Int) : Prop where
  inside : lowest type ≤ q ∧ q ≤ highest type
  near : |(q : K) - x| ≤ 1 / 2 ∨ q = highest type ∧ (q : K) ≤ x ∨ q = lowest type ∧ x ≤ q

theorem ends_ordered (type : IntType) : lowest type ≤ highest type := by
  have zero := fits_iff.mp (fits_zero type)
  exact zero.1.trans zero.2

theorem saturateRound_saturated (accepted : Accepted longType type) (x : K) :
    ∃ q, saturateRound longType type x = some q ∧ Saturated type x q := by
  obtain ⟨low, high⟩ := wide_contains accepted
  have ordered := ends_ordered type
  unfold saturateRound
  split
  case isTrue large =>
    refine ⟨_, rfl, ⟨ordered, le_rfl⟩, .inr (.inl ⟨rfl, ?_⟩)⟩
    exact le_trans (Int.cast_le.mpr high) large
  case isFalse notLarge =>
    split
    case isTrue small =>
      refine ⟨_, rfl, ⟨le_rfl, ordered⟩, .inr (.inr ⟨rfl, ?_⟩)⟩
      exact le_trans small (Int.cast_le.mpr low)
    case isFalse notSmall =>
      obtain ⟨nearest, rounded, near⟩ := lround_near (not_le.mp notSmall) (not_le.mp notLarge)
      obtain ⟨nearLow, nearHigh⟩ := abs_le.mp near
      have halfBelow : (1 : K) / 2 ≤ 1 := by linarith [one_half_pos (α := K)]
      refine ⟨saturateCast type nearest, by rw [rounded]; rfl, ?_⟩
      unfold saturateCast
      split
      case isTrue under =>
        refine ⟨⟨le_rfl, ordered⟩, .inr (.inr ⟨rfl, ?_⟩)⟩
        have gap : ((nearest + 1 : Int) : K) ≤ lowest type := Int.cast_le.mpr under
        push_cast at gap
        linarith
      case isFalse notUnder =>
        split
        case isTrue above =>
          refine ⟨⟨ordered, le_rfl⟩, .inr (.inl ⟨rfl, ?_⟩)⟩
          have gap : ((highest type + 1 : Int) : K) ≤ nearest := Int.cast_le.mpr above
          push_cast at gap
          linarith
        case isFalse notAbove => exact ⟨⟨not_lt.mp notUnder, not_lt.mp notAbove⟩, .inl near⟩

omit [FloorRing K] in
/-- No value of the type is nearer. -/
theorem saturated_nearest (saturated : Saturated type x q) (fits : Fits type n) : |(q : K) - x| ≤ |(n : K) - x| := by
  obtain ⟨inside, near⟩ := saturated
  obtain ⟨low, high⟩ := fits_iff.mp fits
  rcases near with near | ⟨top, above⟩ | ⟨bottom, below⟩
  · rcases eq_or_ne n q with rfl | other
    · exact le_rfl
    · have apart : (1 : K) ≤ |(n : K) - q| := by
        have distance : 1 ≤ |n - q| := Int.one_le_abs (sub_ne_zero.mpr other)
        exact_mod_cast distance
      have triangle := abs_sub_le (n : K) x q
      rw [abs_sub_comm x] at triangle
      have halves : (1 : K) / 2 + 1 / 2 = 1 := add_halves 1
      linarith
  · have order : (n : K) ≤ q := Int.cast_le.mpr (top ▸ high)
    rw [abs_of_nonpos (by linarith), abs_of_nonpos (by linarith)]
    linarith
  · have order : (q : K) ≤ n := Int.cast_le.mpr (bottom ▸ low)
    rw [abs_of_nonneg (by linarith), abs_of_nonneg (by linarith)]
    linarith

omit [FloorRing K] in
theorem saturated_exact (saturated : Saturated type (n : K) q) (fits : Fits type n) : q = n := by
  have nearest := saturated_nearest saturated fits
  rw [sub_self, abs_zero] at nearest
  exact_mod_cast sub_eq_zero.mp (abs_nonpos_iff.mp nearest)

omit [FloorRing K] in
/-- Between the ends of the type the error is at most a half. -/
theorem saturated_half (saturated : Saturated type x q) (low : (lowest type : K) ≤ x) (high : x ≤ highest type) :
    |(q : K) - x| ≤ 1 / 2 := by
  rcases saturated.near with near | ⟨rfl, above⟩ | ⟨rfl, below⟩
  · exact near
  · rw [le_antisymm above high, sub_self, abs_zero]
    exact one_half_pos.le
  · rw [le_antisymm below low, sub_self, abs_zero]
    exact one_half_pos.le

omit [FloorRing K] in
theorem saturated_mono (less : x < y) (first : Saturated type x q) (second : Saturated type y p) : q ≤ p := by
  by_contra crossed
  have order : (p : K) < q := Int.cast_lt.mpr (not_le.mp crossed)
  have left := saturated_nearest first (fits_iff.mpr second.inside)
  have right := saturated_nearest second (fits_iff.mpr first.inside)
  -- each point is on the side of its own value of the middle
  have above := sq_le_sq.mpr left
  have below := sq_le_sq.mpr right
  nlinarith

/-! ## Steps -/

variable {step : Ratio}

def Ratio.size (step : Ratio) : K := step.num / step.den

omit [FloorRing K] in
theorem stepSize_pos (step : Ratio) : 0 < (step.size : K) :=
  div_pos (Nat.cast_pos.mpr step.num_pos) (Nat.cast_pos.mpr step.den_pos)

omit [FloorRing K] in
theorem scale_size (step : Ratio) (x : K) : x * (step.den / step.num) * step.size = x := by
  have num : (step.num : K) ≠ 0 := Nat.cast_ne_zero.mpr step.num_pos.ne'
  have den : (step.den : K) ≠ 0 := Nat.cast_ne_zero.mpr step.den_pos.ne'
  unfold Ratio.size
  field_simp

omit [FloorRing K] in
theorem size_scale (step : Ratio) (n : Int) : (dequantize step n : K) * (step.den / step.num) = n := by
  have num : (step.num : K) ≠ 0 := Nat.cast_ne_zero.mpr step.num_pos.ne'
  have den : (step.den : K) ≠ 0 := Nat.cast_ne_zero.mpr step.den_pos.ne'
  unfold dequantize
  field_simp

omit [FloorRing K] in
theorem dequantize_error (step : Ratio) (n : Int) (x : K) :
    |dequantize step n - x| = |(n : K) - x * (step.den / step.num)| * step.size := by
  have scaled : dequantize step n - x = ((n : K) - x * (step.den / step.num)) * step.size := by
    rw [sub_mul, scale_size]
    rfl
  rw [scaled, abs_mul, abs_of_pos (stepSize_pos step : 0 < (step.size : K))]

theorem quantize_saturated (accepted : Accepted longType type) (step : Ratio) (x : K) :
    ∃ q, quantize longType type step x = some q ∧ Saturated type (x * (step.den / step.num)) q :=
  saturateRound_saturated accepted _

/-- For every accepted type, step and width of `long`: a value of the type comes back from its number, every
number gives the nearest value of the type, within half a step between its ends, and larger numbers do
not give smaller values. -/
theorem quantize_round_trip (accepted : Accepted longType type) (step : Ratio) :
    (∀ n, Fits type n → quantize longType type step (dequantize step n : K) = some n) ∧
      (∀ x : K, ∃ q, quantize longType type step x = some q ∧ Fits type q ∧
        (∀ n, Fits type n → |dequantize step q - x| ≤ |dequantize step n - x|) ∧
        (dequantize step (lowest type) ≤ x → x ≤ dequantize step (highest type) →
          |dequantize step q - x| ≤ dequantize step 1 / 2)) ∧
      ∀ x y : K, x ≤ y → ∀ q p, quantize longType type step x = some q → quantize longType type step y = some p →
        q ≤ p := by
  refine ⟨fun n fits => ?_, fun x => ?_, fun x y le q p first second => ?_⟩
  · obtain ⟨q, value, saturated⟩ := quantize_saturated accepted step (dequantize step n : K)
    rw [size_scale] at saturated
    rw [value, saturated_exact saturated fits]
  · obtain ⟨q, value, saturated⟩ := quantize_saturated accepted step x
    refine ⟨q, value, fits_iff.mpr saturated.inside, fun n fits => ?_, fun low high => ?_⟩
    · rw [dequantize_error, dequantize_error]
      exact mul_le_mul_of_nonneg_right (saturated_nearest saturated fits) (stepSize_pos step).le
    · have lowest_le : (lowest type : K) ≤ x * (step.den / step.num) := by
        rw [← scale_size step x] at low
        exact le_of_mul_le_mul_right low (stepSize_pos step)
      have le_highest : x * (step.den / step.num) ≤ (highest type : K) := by
        rw [← scale_size step x] at high
        exact le_of_mul_le_mul_right high (stepSize_pos step)
      have half := mul_le_mul_of_nonneg_right (saturated_half saturated lowest_le le_highest) (stepSize_pos step).le
      have one : (dequantize step 1 : K) = step.size := by
        unfold dequantize
        rw [Int.cast_one, one_mul]
        rfl
      rw [dequantize_error, one]
      linarith
  · rcases le.eq_or_lt with rfl | less
    · rw [first] at second
      exact (Option.some.inj second).le
    · have scaled : x * (step.den / step.num) < y * (step.den / step.num) :=
        mul_lt_mul_of_pos_right less (div_pos (Nat.cast_pos.mpr step.den_pos) (Nat.cast_pos.mpr step.num_pos))
      obtain ⟨q', value, saturated⟩ := quantize_saturated accepted step x
      obtain ⟨p', value', saturated'⟩ := quantize_saturated accepted step y
      rw [first] at value
      rw [second] at value'
      cases value
      cases value'
      exact saturated_mono scaled saturated saturated'

/-- An unsigned byte in steps of three eighths, where `long` has 32 bits. -/
theorem quantize_round_trip_testing :
    quantize ⟨32, true, int32_bits⟩ ⟨8, false, Nat.succ_pos 7⟩ ⟨3, 8, Nat.succ_pos 2, Nat.succ_pos 7⟩
      (dequantize ⟨3, 8, Nat.succ_pos 2, Nat.succ_pos 7⟩ 255 : ℚ) = some 255 :=
  (quantize_round_trip ⟨rfl, .inl (by decide)⟩ ⟨3, 8, Nat.succ_pos 2, Nat.succ_pos 7⟩).1 255 (by decide)

end Emblib.Quantization
