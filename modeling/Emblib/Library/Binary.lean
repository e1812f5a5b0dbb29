import Mathlib.Algebra.Order.Field.Power
import Mathlib.Data.Rat.Cast.Order
import Mathlib.Tactic.Linarith
import Mathlib.Tactic.NormNum
import Mathlib.Tactic.Positivity

/-! Binary floating-point numbers by their bits: a sign, an exponent with a bias and a fraction, behind
which a leading bit is hidden unless the exponent is zero. -/
namespace Emblib.Binary

structure Format where
  exponentBits : Nat
  fractionBits : Nat

namespace Format
variable (format : Format) {bits exponent fraction : Nat}

def negative (bits : Nat) : Bool := bits.testBit (format.exponentBits + format.fractionBits)

def exponentOf (bits : Nat) : Nat := bits / 2 ^ format.fractionBits % 2 ^ format.exponentBits

def fractionOf (bits : Nat) : Nat := bits % 2 ^ format.fractionBits

def bias : Nat := 2 ^ (format.exponentBits - 1) - 1

/-- The value of the fields of a finite number. The exponent zero stands for one without the leading bit. -/
def magnitude (exponent fraction : Nat) : ℚ :=
  if exponent = 0 then fraction * 2 ^ (1 - format.bias - format.fractionBits : ℤ)
  else (2 ^ format.fractionBits + fraction) * 2 ^ (exponent - format.bias - format.fractionBits : ℤ)

def value (bits : Nat) : ℚ :=
  let magnitude := format.magnitude (format.exponentOf bits) (format.fractionOf bits)
  if format.negative bits then -magnitude else magnitude

def smallestNormal : ℚ := 2 ^ (1 - format.bias : ℤ)

/-! ## The fields -/

theorem fraction_lt (bits : Nat) : format.fractionOf bits < 2 ^ format.fractionBits :=
  Nat.mod_lt _ (Nat.two_pow_pos _)

theorem exponent_lt (bits : Nat) : format.exponentOf bits < 2 ^ format.exponentBits :=
  Nat.mod_lt _ (Nat.two_pow_pos _)

/-- Without a sign the bits are the exponent and the fraction. -/
theorem fields_eq (width : bits < 2 ^ (format.exponentBits + format.fractionBits + 1))
    (positive : format.negative bits = false) :
    bits = format.exponentOf bits * 2 ^ format.fractionBits + format.fractionOf bits := by
  have small : bits < 2 ^ (format.exponentBits + format.fractionBits) := by
    unfold negative at positive
    have top : bits / 2 ^ (format.exponentBits + format.fractionBits) < 2 := by
      rw [Nat.div_lt_iff_lt_mul (Nat.two_pow_pos _), Nat.mul_comm, ← pow_succ]
      exact width
    rw [Nat.testBit_eq_decide_div_mod_eq, Nat.mod_eq_of_lt top, decide_eq_false_iff_not] at positive
    have zero : bits / 2 ^ (format.exponentBits + format.fractionBits) = 0 :=
      (Nat.le_one_iff_eq_zero_or_eq_one.mp (Nat.le_of_lt_succ top)).resolve_right positive
    exact (Nat.div_eq_zero_iff_lt (Nat.two_pow_pos _)).mp zero
  have inside : bits / 2 ^ format.fractionBits < 2 ^ format.exponentBits := by
    rw [Nat.div_lt_iff_lt_mul (Nat.two_pow_pos _), ← pow_add]
    exact small
  unfold exponentOf fractionOf
  rw [Nat.mod_eq_of_lt inside, Nat.mul_comm, Nat.div_add_mod]

variable {format}

theorem value_fields (exponentInside : exponent < 2 ^ format.exponentBits)
    (fractionInside : fraction < 2 ^ format.fractionBits) :
    format.value (exponent * 2 ^ format.fractionBits + fraction) = format.magnitude exponent fraction := by
  have positive := Nat.two_pow_pos format.fractionBits
  have small : exponent * 2 ^ format.fractionBits + fraction < 2 ^ (format.exponentBits + format.fractionBits) := by
    have next := Nat.mul_le_mul_right (2 ^ format.fractionBits) exponentInside
    rw [Nat.succ_mul, ← pow_add] at next
    omega
  have sign : format.negative (exponent * 2 ^ format.fractionBits + fraction) = false := Nat.testBit_lt_two_pow small
  have quotient : format.exponentOf (exponent * 2 ^ format.fractionBits + fraction) = exponent := by
    unfold exponentOf
    rw [Nat.mul_comm, Nat.mul_add_div positive, Nat.div_eq_of_lt fractionInside, Nat.add_zero,
      Nat.mod_eq_of_lt exponentInside]
  have rest : format.fractionOf (exponent * 2 ^ format.fractionBits + fraction) = fraction := by
    unfold fractionOf
    rw [Nat.mul_comm, Nat.mul_add_mod, Nat.mod_eq_of_lt fractionInside]
  simp [value, sign, quotient, rest]

theorem magnitude_nonneg (exponent fraction : Nat) : 0 ≤ format.magnitude exponent fraction := by
  unfold magnitude
  split <;> positivity

theorem magnitude_pos (normal : exponent ≠ 0) (fraction : Nat) : 0 < format.magnitude exponent fraction := by
  rw [magnitude, if_neg normal]
  positivity

/-- A number from the smallest normal one on has no sign and a leading bit. -/
theorem normal_of_le (large : format.smallestNormal ≤ format.value bits) :
    format.negative bits = false ∧ format.exponentOf bits ≠ 0 := by
  have smallest : 0 < format.smallestNormal := zpow_pos two_pos _
  have nonneg := format.magnitude_nonneg (format.exponentOf bits) (format.fractionOf bits)
  have sign : format.negative bits = false := by
    by_contra negative
    rw [Bool.not_eq_false] at negative
    simp only [value, negative, if_true] at large
    linarith
  refine ⟨sign, fun zero => ?_⟩
  have fraction : (format.fractionOf bits : ℚ) < 2 ^ (format.fractionBits : ℤ) := by
    exact_mod_cast format.fraction_lt bits
  have scaled : (2 : ℚ) ^ (1 - format.bias : ℤ) =
      2 ^ (format.fractionBits : ℤ) * 2 ^ (1 - format.bias - format.fractionBits : ℤ) := by
    rw [← zpow_add₀ two_ne_zero, add_sub_cancel]
  simp only [value, sign, zero, magnitude, smallestNormal, scaled] at large
  have below := mul_lt_mul_of_pos_right fraction
    (zpow_pos (two_pos : (0 : ℚ) < 2) (1 - format.bias - format.fractionBits))
  simp only [Bool.false_eq_true, if_false, if_true] at large
  linarith

end Format

end Emblib.Binary
