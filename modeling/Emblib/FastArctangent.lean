import Mathlib
import Emblib.Pwm
import Emblib.Library.Polynomials

/-! The angle of a vector in a constant expression. The octant is reduced to a ratio of at most one, for which a
polynomial stands for the arctangent. The polynomial is near the arctangent with two more terms; without
them it is as near up to three fifths, but not at the diagonals. -/
namespace Emblib.FastArctangent
open Polynomials
open Real (pi arctan sin cos)

section Code
variable {K : Type} [Field K] [LinearOrder K]

/-- The polynomial of `fast_atan2`. -/
def arctanPolynomial (a : K) : K :=
  let a2 := a * a
  a * (1 + a2 * (-0.3333314528 + a2 * (0.1999355085 + a2 * (-0.1420889944 +
    a2 * (0.1065626393 + a2 * (-0.0752896400 + a2 * 0.0429096138))))))

/-- The octants of `fast_atan2`, around what stands for the arctangent. -/
def octants (curve : K → K) (pi y x : K) : K :=
  let halfPi := pi / 2
  if x = 0 ∧ y = 0 then 0 else
  let ax := if x < 0 then -x else x
  let ay := if y < 0 then -y else y
  let swap := ay > ax
  let a := if swap then ax / ay else ay / ax
  let r := curve a
  let r := if swap then halfPi - r else r
  let r := if x < 0 then pi - r else r
  if y < 0 then -r else r

def fastAtan2 (pi y x : K) : K := octants arctanPolynomial pi y x

end Code

/-! ## The polynomial -/

/-- The numerator of the derivative of the error, with the two terms that are left out, by the square of the ratio. -/
def slope : List ℚ :=
  [0, 0.0000056416, -0.0003168159, 0.0050545817, -0.0355592071, 0.1308777137, -0.2703610606, 0.3153389289,
    -0.1937602136, 0.0487258369]

theorem slope_small {u : ℝ} (nonneg : 0 ≤ u) (below : u < 1) : |eval (slope.map Rat.cast) u| ≤ 72 / 10 ^ 7 := by
  have each : ∀ i < 16, boundAround slope ((2 * i + 1 : Nat) / (2 * 16 : Nat)) (1 / (2 * 16 : Nat)) ≤ 72 / 10 ^ 7 := by
    decide +kernel
  have bound := abs_le_of_parts (by decide) each nonneg below
  push_cast at bound
  exact bound

/-- The two terms that are left out. -/
def leftOut (a : ℝ) : ℝ := 0.0161657367 * a ^ 15 - 0.0028662257 * a ^ 17

theorem hasDerivAt_error (a : ℝ) :
    HasDerivAt (fun a => arctanPolynomial a - leftOut a - arctan a)
      (eval (slope.map Rat.cast) (a ^ 2) / (1 + a ^ 2)) a := by
  have monomial (n : Nat) (c : ℝ) : HasDerivAt (fun a : ℝ => c * a ^ n) (c * (n * a ^ (n - 1))) a :=
    (hasDerivAt_pow n a).const_mul c
  have terms := ((((((((monomial 1 1).add (monomial 3 (-0.3333314528))).add (monomial 5 0.1999355085)).add
    (monomial 7 (-0.1420889944))).add (monomial 9 0.1065626393)).add (monomial 11 (-0.0752896400))).add
    (monomial 13 0.0429096138)).add (monomial 15 (-0.0161657367))).add (monomial 17 0.0028662257)
  have positive : 1 + a ^ 2 ≠ 0 := by positivity
  refine (terms.sub (Real.hasDerivAt_arctan a)).congr_deriv ?_ |>.congr_of_eventuallyEq ?_
  · simp only [slope, List.map_cons, List.map_nil, eval_cons, eval_nil]
    field_simp
    norm_num
    ring
  · apply Filter.Eventually.of_forall
    intro b
    simp only [arctanPolynomial, leftOut, Pi.add_apply, Pi.sub_apply]
    ring

theorem error_near {a : ℝ} (nonneg : 0 ≤ a) (below : a ≤ 1) :
    |arctanPolynomial a - leftOut a - arctan a| ≤ 72 / 10 ^ 7 * a := by
  have small : ∀ x ∈ Set.Ico (0 : ℝ) 1, ‖eval (slope.map Rat.cast) (x ^ 2) / (1 + x ^ 2)‖ ≤ 72 / 10 ^ 7 := by
    rintro x ⟨low, high⟩
    have square : x ^ 2 < 1 := by
      rw [sq_lt_one_iff₀ low]
      exact high
    rw [Real.norm_eq_abs, abs_div, abs_of_pos (by positivity : 0 < 1 + x ^ 2)]
    apply (div_le_self (abs_nonneg _) (by linarith [sq_nonneg x])).trans
    exact slope_small (sq_nonneg x) square
  have change := norm_image_sub_le_of_norm_deriv_le_segment' (fun x _ => (hasDerivAt_error x).hasDerivWithinAt) small a
    ⟨nonneg, below⟩
  have start : arctanPolynomial 0 - leftOut 0 - arctan 0 = 0 := by
    simp [arctanPolynomial, leftOut]
  rw [start, sub_zero, sub_zero, Real.norm_eq_abs] at change
  exact change

theorem leftOut_bounds {a : ℝ} (nonneg : 0 ≤ a) (below : a ≤ 1) :
    0.0132995110 * a ^ 15 ≤ leftOut a ∧ leftOut a ≤ 0.0161657367 * a ^ 15 ∧ leftOut a ≤ 0.0132995110 := by
  have power := pow_nonneg nonneg 15
  have most : a ^ 15 ≤ 1 := pow_le_one₀ nonneg below
  have next : a ^ 17 ≤ a ^ 15 := pow_le_pow_of_le_one nonneg below (by decide)
  have nextNonneg := pow_nonneg nonneg 17
  have square : a ^ 15 * a ^ 15 ≤ a ^ 17 := by
    rw [← pow_add]
    exact pow_le_pow_of_le_one nonneg below (by decide)
  unfold leftOut
  refine ⟨by linarith, by linarith, ?_⟩
  nlinarith

theorem polynomial_error {a : ℝ} (nonneg : 0 ≤ a) (below : a ≤ 1) :
    |arctanPolynomial a - arctan a| ≤ 0.0134 ∧
      (a ≤ 3 / 5 → |arctanPolynomial a - arctan a| ≤ 15 / 10 ^ 6) ∧
      (2 / 3 ≤ a → 20 / 10 ^ 6 < |arctanPolynomial a - arctan a|) := by
  obtain ⟨low, high⟩ := abs_le.mp (error_near nonneg below)
  obtain ⟨least, most, top⟩ := leftOut_bounds nonneg below
  have power := pow_nonneg nonneg 15
  refine ⟨?_, fun near => ?_, fun far => ?_⟩
  · rw [abs_le]
    constructor <;> norm_num at * <;> linarith
  · have small : a ^ 15 ≤ (3 / 5) ^ 15 := pow_le_pow_left₀ nonneg near 15
    rw [abs_le]
    constructor <;> norm_num at * <;> linarith
  · have large : (2 / 3) ^ 15 ≤ a ^ 15 := pow_le_pow_left₀ (by norm_num) far 15
    apply lt_of_lt_of_le _ (le_abs_self _)
    norm_num at *
    linarith

/-! ## The octants -/

theorem code_abs (x : ℝ) : (if x < 0 then -x else x) = |x| := by
  split
  · exact (abs_of_neg ‹_›).symm
  · exact (abs_of_nonneg (not_lt.mp ‹_›)).symm

/-- The ratio of the coordinates for which the curve is taken. -/
noncomputable def ratio (y x : ℝ) : ℝ := if |y| > |x| then |x| / |y| else |y| / |x|

theorem octants_difference (f g : ℝ → ℝ) {x y : ℝ} (nonzero : ¬(x = 0 ∧ y = 0)) :
    |octants f pi y x - octants g pi y x| = |f (ratio y x) - g (ratio y x)| := by
  unfold octants
  simp only [if_neg nonzero, code_abs]
  rw [ratio]
  generalize (if |y| > |x| then |x| / |y| else |y| / |x|) = a
  have mirrored (c r s : ℝ) : c - r - (c - s) = -(r - s) := by ring
  have opposite (r s : ℝ) : -r - -s = -(r - s) := by ring
  by_cases swap : |y| > |x| <;> by_cases left : x < 0 <;> by_cases lower : y < 0 <;>
    simp only [if_pos, if_neg, swap, left, lower, not_false_eq_true, mirrored, opposite, abs_neg]

theorem polar_arctan {u : ℝ} (v : ℝ) (positive : 0 < u) :
    √(u ^ 2 + v ^ 2) * cos (arctan (v / u)) = u ∧ √(u ^ 2 + v ^ 2) * sin (arctan (v / u)) = v := by
  have inner : 0 < √(1 + (v / u) ^ 2) := Real.sqrt_pos.mpr (by positivity)
  have length : √(u ^ 2 + v ^ 2) = u * √(1 + (v / u) ^ 2) := by
    have square : u ^ 2 + v ^ 2 = u ^ 2 * (1 + (v / u) ^ 2) := by field_simp
    rw [square, Real.sqrt_mul (sq_nonneg u), Real.sqrt_sq positive.le]
  rw [length, Real.cos_arctan, Real.sin_arctan]
  constructor <;> field_simp

/-- The angle of the absolute coordinates. -/
noncomputable def firstQuadrant (y x : ℝ) : ℝ := if |y| > |x| then pi / 2 - arctan (|x| / |y|) else arctan (|y| / |x|)

theorem firstQuadrant_polar {x y : ℝ} (nonzero : ¬(x = 0 ∧ y = 0)) :
    √(x ^ 2 + y ^ 2) * cos (firstQuadrant y x) = |x| ∧ √(x ^ 2 + y ^ 2) * sin (firstQuadrant y x) = |y| ∧
      0 ≤ firstQuadrant y x ∧ firstQuadrant y x ≤ pi / 2 := by
  unfold firstQuadrant
  split
  case isTrue steep =>
    obtain ⟨cosine, sine⟩ := polar_arctan |x| ((abs_nonneg x).trans_lt steep)
    rw [sq_abs, sq_abs, add_comm (y ^ 2)] at cosine sine
    have nonneg : 0 ≤ arctan (|x| / |y|) := Real.arctan_nonneg.mpr (by positivity)
    rw [Real.cos_pi_div_two_sub, Real.sin_pi_div_two_sub]
    exact ⟨sine, cosine, by linarith [(Real.arctan_lt_pi_div_two (|x| / |y|)).le], by linarith⟩
  case isFalse flat =>
    have positive : 0 < |x| := by
      refine abs_pos.mpr fun zero => nonzero ⟨zero, ?_⟩
      rw [zero, abs_zero] at flat
      exact abs_nonpos_iff.mp (not_lt.mp flat)
    obtain ⟨cosine, sine⟩ := polar_arctan |y| positive
    rw [sq_abs, sq_abs] at cosine sine
    exact ⟨cosine, sine, Real.arctan_nonneg.mpr (by positivity), (Real.arctan_lt_pi_div_two _).le⟩

/-- An angle in the range of `arg` with these coordinates. -/
theorem arg_of_polar {x y length angle : ℝ} (positive : 0 < length) (cosine : length * cos angle = x)
    (sine : length * sin angle = y) (above : -pi < angle) (below : angle ≤ pi) : Complex.arg ⟨x, y⟩ = angle := by
  have vector : (⟨x, y⟩ : ℂ) = length * (Complex.cos angle + Complex.sin angle * Complex.I) := by
    rw [← cosine, ← sine]
    apply Complex.ext <;> simp [← Complex.ofReal_cos, ← Complex.ofReal_sin, Complex.mul_re, Complex.mul_im]
  rw [vector]
  exact Complex.arg_mul_cos_add_sin_mul_I positive ⟨above, below⟩

theorem length_pos {x y : ℝ} (nonzero : ¬(x = 0 ∧ y = 0)) : 0 < √(x ^ 2 + y ^ 2) := by
  apply Real.sqrt_pos.mpr
  rcases not_and_or.mp nonzero with other | other
  · linarith [pow_pos (abs_pos.mpr other) 2, sq_abs x, sq_nonneg y]
  · linarith [pow_pos (abs_pos.mpr other) 2, sq_abs y, sq_nonneg x]

/-- The angle above the horizontal axis. -/
theorem upper_polar {x y : ℝ} (nonzero : ¬(x = 0 ∧ y = 0)) :
    ∃ upper, (if x < 0 then pi - firstQuadrant y x else firstQuadrant y x) = upper ∧
      √(x ^ 2 + y ^ 2) * cos upper = x ∧ √(x ^ 2 + y ^ 2) * sin upper = |y| ∧ 0 ≤ upper ∧ upper ≤ pi := by
  obtain ⟨cosine, sine, nonneg, below⟩ := firstQuadrant_polar nonzero
  have positive := Real.pi_pos
  refine ⟨_, rfl, ?_⟩
  split
  case isTrue left =>
    rw [Real.cos_pi_sub, Real.sin_pi_sub, mul_neg, cosine, abs_of_neg left, neg_neg]
    exact ⟨rfl, sine, by linarith, by linarith⟩
  case isFalse right =>
    rw [cosine, abs_of_nonneg (not_lt.mp right)]
    exact ⟨rfl, sine, nonneg, by linarith⟩

/-- With the arctangent itself the octants are right. -/
theorem octants_arctan (x y : ℝ) : octants arctan pi y x = Complex.arg ⟨x, y⟩ := by
  by_cases origin : x = 0 ∧ y = 0
  · obtain ⟨rfl, rfl⟩ := origin
    have zero : Complex.arg ⟨0, 0⟩ = 0 := Complex.arg_zero
    rw [zero, octants, if_pos ⟨rfl, rfl⟩]
  have unfolded : octants arctan pi y x =
      let upper := if x < 0 then pi - firstQuadrant y x else firstQuadrant y x
      if y < 0 then -upper else upper := by
    unfold octants firstQuadrant
    simp only [if_neg origin, code_abs]
    by_cases swap : |y| > |x| <;> simp only [if_pos, if_neg, swap, not_false_eq_true]
  obtain ⟨upper, shape, cosine, sine, nonneg, below⟩ := upper_polar origin
  rw [unfolded, shape]
  show (if y < 0 then -upper else upper) = _
  symm
  split
  case isTrue lower =>
    have other : upper ≠ pi := by
      rintro rfl
      rw [Real.sin_pi, mul_zero] at sine
      exact lower.ne (abs_eq_zero.mp sine.symm)
    apply arg_of_polar (length_pos origin)
    · rw [Real.cos_neg, cosine]
    · rw [Real.sin_neg, mul_neg, sine, abs_of_neg lower, neg_neg]
    · exact neg_lt_neg (below.lt_of_ne other)
    · linarith [Real.pi_pos]
  case isFalse higher =>
    apply arg_of_polar (length_pos origin) cosine
    · rw [sine, abs_of_nonneg (not_lt.mp higher)]
    · linarith [Real.pi_pos]
    · exact below

/-! ## The whole plane -/

theorem fastAtan2_difference {x y : ℝ} (nonzero : ¬(x = 0 ∧ y = 0)) :
    |fastAtan2 pi y x - Complex.arg ⟨x, y⟩| = |arctanPolynomial (ratio y x) - arctan (ratio y x)| := by
  rw [← octants_arctan]
  exact octants_difference arctanPolynomial arctan nonzero

/-- The ratio is that of the smaller to the larger coordinate. -/
theorem ratio_eq {x y : ℝ} (nonzero : ¬(x = 0 ∧ y = 0)) :
    0 < max |x| |y| ∧ ratio y x = min |x| |y| / max |x| |y| := by
  have positive : 0 < max |x| |y| := by
    rcases not_and_or.mp nonzero with other | other
    · exact lt_max_of_lt_left (abs_pos.mpr other)
    · exact lt_max_of_lt_right (abs_pos.mpr other)
  refine ⟨positive, ?_⟩
  unfold ratio
  split
  case isTrue steep => rw [min_eq_left steep.le, max_eq_right steep.le]
  case isFalse flat => rw [min_eq_right (not_lt.mp flat), max_eq_left (not_lt.mp flat)]

/-- For every vector the octants are right around the arctangent, and the angle is within 0.0134. It has the
documented accuracy where one coordinate is at most three fifths of the other one, but nowhere between two
thirds and the diagonals. -/
theorem fastAtan2_accuracy (x y : ℝ) :
    octants arctan pi y x = Complex.arg ⟨x, y⟩ ∧
      |fastAtan2 pi y x - Complex.arg ⟨x, y⟩| ≤ 0.0134 ∧
      (min |x| |y| ≤ 3 / 5 * max |x| |y| → |fastAtan2 pi y x - Complex.arg ⟨x, y⟩| ≤ 15 / 10 ^ 6) ∧
      ((x ≠ 0 ∨ y ≠ 0) → 2 / 3 * max |x| |y| ≤ min |x| |y| →
        20 / 10 ^ 6 < |fastAtan2 pi y x - Complex.arg ⟨x, y⟩|) := by
  refine ⟨octants_arctan x y, ?_⟩
  by_cases origin : x = 0 ∧ y = 0
  · obtain ⟨rfl, rfl⟩ := origin
    have zero : |fastAtan2 pi (0 : ℝ) 0 - Complex.arg ⟨0, 0⟩| = 0 := by
      rw [← octants_arctan, fastAtan2, octants, octants, if_pos ⟨rfl, rfl⟩, if_pos ⟨rfl, rfl⟩, sub_zero, abs_zero]
    rw [zero]
    refine ⟨by norm_num, fun _ => by norm_num, fun other => ?_⟩
    rcases other with other | other
    · exact absurd rfl other
    · exact absurd rfl other
  obtain ⟨positive, quotient⟩ := ratio_eq origin
  have nonneg : 0 ≤ min |x| |y| / max |x| |y| := div_nonneg (le_min (abs_nonneg x) (abs_nonneg y)) positive.le
  have below : min |x| |y| / max |x| |y| ≤ 1 := (div_le_one positive).mpr min_le_max
  obtain ⟨always, near, far⟩ := polynomial_error nonneg below
  rw [fastAtan2_difference origin, quotient]
  exact ⟨always, fun small => near ((div_le_iff₀ positive).mpr small),
    fun _ large => far ((le_div_iff₀ positive).mpr large)⟩

end Emblib.FastArctangent
