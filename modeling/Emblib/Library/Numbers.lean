import Mathlib.Algebra.Order.Floor.Ring
import Mathlib.Algebra.Order.Field.Basic
import Mathlib.Tactic.Linarith
import Mathlib.Tactic.NormNum

/-! Functions of the standard library on the numbers of an ordered field: `std::clamp`, the conversion to
an integer, and the remainder of a division, which is exact. -/
namespace Emblib.Numbers

variable {K : Type}

/-! ## Clamping -/

section Clamp
variable [LinearOrder K] {v lo hi : K}

/-- `std::clamp`. -/
def clamp (v lo hi : K) : K := if v < lo then lo else if hi < v then hi else v

theorem clamp_range (ordered : lo ≤ hi) : lo ≤ clamp v lo hi ∧ clamp v lo hi ≤ hi := by
  unfold clamp
  split
  case isTrue below => exact ⟨le_rfl, ordered⟩
  case isFalse notBelow =>
    split
    case isTrue above => exact ⟨ordered, le_rfl⟩
    case isFalse notAbove => exact ⟨not_lt.mp notBelow, not_lt.mp notAbove⟩

theorem clamp_inside (low : lo ≤ v) (high : v ≤ hi) : clamp v lo hi = v := by
  rw [clamp, if_neg (not_lt.mpr low), if_neg (not_lt.mpr high)]

end Clamp

/-! ## Integers -/

section Truncate
variable [Field K] [LinearOrder K] [FloorRing K] {x y : K}

/-- A number without its fraction. -/
def truncate (x : K) : ℤ := if 0 ≤ x then ⌊x⌋ else ⌈x⌉

theorem truncate_floor (nonneg : 0 ≤ x) : truncate x = ⌊x⌋ := if_pos nonneg

theorem truncate_ceil (negative : x < 0) : truncate x = ⌈x⌉ := if_neg (not_le.mpr negative)

theorem truncate_nonneg (nonneg : 0 ≤ x) : (truncate x : K) ≤ x ∧ x < truncate x + 1 := by
  rw [truncate_floor nonneg]
  exact ⟨Int.floor_le x, Int.lt_floor_add_one x⟩

/-- What is left of the division by a number, `std::fmod`. -/
def fmod (x y : K) : K := x - truncate (x / y) * y

variable [IsStrictOrderedRing K]

theorem truncate_neg (negative : x < 0) : (truncate x : K) - 1 < x ∧ x ≤ truncate x := by
  rw [truncate_ceil negative]
  exact ⟨sub_lt_iff_lt_add.mpr (Int.ceil_lt_add_one x), Int.le_ceil x⟩

/-- What is left of a number without its fraction is within the same bound. -/
theorem truncate_abs {bound : ℤ} (small : |x| < bound) : -bound < truncate x ∧ truncate x < bound := by
  obtain ⟨low, high⟩ := abs_lt.mp small
  have positive : (0 : K) < bound := (abs_nonneg x).trans_lt small
  rcases le_or_gt 0 x with nonneg | negative
  · obtain ⟨least, _⟩ := truncate_nonneg nonneg
    have whole : 0 ≤ truncate x := by
      rw [truncate_floor nonneg]
      exact Int.floor_nonneg.mpr nonneg
    have least : (truncate x : K) < bound := least.trans_lt high
    have positive : 0 < bound := by exact_mod_cast positive
    exact ⟨by omega, by exact_mod_cast least⟩
  · obtain ⟨_, most⟩ := truncate_neg negative
    have whole : truncate x ≤ 0 := by
      rw [truncate_ceil negative]
      exact Int.ceil_le.mpr (by simpa using negative.le)
    have most : ((-bound : ℤ) : K) < truncate x := by
      push_cast
      exact low.trans_le most
    have positive : 0 < bound := by exact_mod_cast positive
    exact ⟨by exact_mod_cast most, by omega⟩

/-! ## Remainders -/

theorem fmod_nonneg (positive : 0 < y) (nonneg : 0 ≤ x) : 0 ≤ fmod x y ∧ fmod x y < y := by
  obtain ⟨least, most⟩ := truncate_nonneg (div_nonneg nonneg positive.le)
  have low := (le_div_iff₀ positive).mp least
  have high := (div_lt_iff₀ positive).mp most
  unfold fmod
  constructor
  · linarith
  · linarith

theorem fmod_neg (positive : 0 < y) (negative : x < 0) : -y < fmod x y ∧ fmod x y ≤ 0 := by
  obtain ⟨least, most⟩ := truncate_neg (div_neg_of_neg_of_pos negative positive)
  have low := (lt_div_iff₀ positive).mp least
  have high := (div_le_iff₀ positive).mp most
  unfold fmod
  constructor
  · linarith
  · linarith

theorem fmod_range (positive : 0 < y) (x : K) : -y < fmod x y ∧ fmod x y < y := by
  by_cases nonneg : 0 ≤ x
  · obtain ⟨low, high⟩ := fmod_nonneg positive nonneg
    exact ⟨(neg_lt_zero.mpr positive).trans_le low, high⟩
  · obtain ⟨low, high⟩ := fmod_neg positive (not_le.mp nonneg)
    exact ⟨low, high.trans_lt positive⟩

theorem fmod_small (low : -y < x) (high : x < y) : fmod x y = x := by
  have positive : 0 < y := by linarith
  have inside : |x / y| < ((1 : ℤ) : K) := by
    rw [abs_div, abs_of_pos positive, Int.cast_one]
    exact (div_lt_one positive).mpr (abs_lt.mpr ⟨low, high⟩)
  obtain ⟨above, below⟩ := truncate_abs inside
  have none : truncate (x / y) = 0 := by omega
  rw [fmod, none, Int.cast_zero, zero_mul, sub_zero]

end Truncate

end Emblib.Numbers
