import Mathlib.Analysis.SpecialFunctions.Trigonometric.Bounds

/-! Numbers of the unit circle and what is near them: the first terms of the exponential, and the products of
numbers that are near a power of one unit. -/
namespace Emblib.Phasor
open Complex

/-- The terms up to the sixth power. -/
noncomputable def taylor (angle : ℝ) : ℂ := ∑ m ∈ Finset.range 7, ((angle : ℂ) * I) ^ m / m.factorial

theorem taylor_components (angle : ℝ) :
    taylor angle =
      ⟨1 - angle ^ 2 / 2 + angle ^ 4 / 24 - angle ^ 6 / 720, angle - angle ^ 3 / 6 + angle ^ 5 / 120⟩ := by
  have third : I ^ 3 = -I := I_pow_three
  have fourth : I ^ 4 = 1 := I_pow_four
  have fifth : I ^ 5 = I := by rw [pow_succ, fourth, one_mul]
  have sixth : I ^ 6 = -1 := by rw [pow_succ, fifth, I_mul_I]
  unfold taylor
  simp only [Finset.sum_range_succ, Finset.sum_range_zero, mul_pow, I_sq, third, fourth, fifth, sixth]
  apply Complex.ext <;> simp [Nat.factorial, ← ofReal_pow] <;> ring

theorem exp_taylor {angle : ℝ} (small : |angle| ≤ 1) : ‖exp (angle * I) - taylor angle‖ ≤ |angle| ^ 7 / 4410 := by
  have length : ‖(angle : ℂ) * I‖ = |angle| := by
    rw [norm_mul, norm_I, mul_one, norm_real, Real.norm_eq_abs]
  have bound := exp_bound (length.trans_le small) (Nat.succ_pos 6)
  rw [length] at bound
  refine bound.trans_eq ?_
  norm_num [Nat.factorial]
  ring

theorem exp_near (angle other : ℝ) : ‖exp (angle * I) - exp (other * I)‖ ≤ |angle - other| := by
  have turned : exp (angle * I) - exp (other * I) = exp (other * I) * (exp (I * (angle - other : ℝ)) - 1) := by
    rw [mul_sub, ← exp_add, mul_one]
    congr 2
    push_cast
    ring
  rw [turned, norm_mul, norm_exp_ofReal_mul_I, one_mul]
  exact Real.norm_exp_I_mul_ofReal_sub_one_le

/-- The errors of the steps add up. -/
theorem powers_near {z : ℕ → ℂ} {w unit : ℂ} {n : ℕ} {step error : ℝ} (length : ‖unit‖ = 1) (start : z 0 = 1)
    (steps : ∀ k < n, ‖z (k + 1) - z k * w‖ ≤ step) (near : ‖w - unit‖ ≤ error)
    (room : n * (step + 2 * error) ≤ 1) {k : ℕ} (inside : k ≤ n) :
    ‖z k - unit ^ k‖ ≤ k * (step + 2 * error) := by
  induction k with
  | zero => simp [start]
  | succ k ih =>
    have before := ih (Nat.le_of_succ_le inside)
    have first := steps k inside
    have nonneg : 0 ≤ step + 2 * error := by
      linarith [(norm_nonneg _).trans first, (norm_nonneg _).trans near]
    have bounded : ‖z k‖ ≤ 2 := by
      have size : ‖unit ^ k‖ = 1 := by rw [norm_pow, length, one_pow]
      have whole : (k : ℝ) * (step + 2 * error) ≤ n * (step + 2 * error) :=
        mul_le_mul_of_nonneg_right (Nat.cast_le.mpr (Nat.le_of_succ_le inside)) nonneg
      have sum := norm_le_norm_add_norm_sub' (z k) (unit ^ k)
      linarith
    have parts : z (k + 1) - unit ^ (k + 1) = z (k + 1) - z k * w + z k * (w - unit) + (z k - unit ^ k) * unit := by
      ring
    calc
      ‖z (k + 1) - unit ^ (k + 1)‖ ≤ ‖z (k + 1) - z k * w‖ + ‖z k * (w - unit)‖ + ‖(z k - unit ^ k) * unit‖ := by
        rw [parts]
        exact norm_add₃_le
      _ ≤ step + 2 * error + k * (step + 2 * error) := by
        rw [norm_mul, norm_mul, length, mul_one]
        have second : ‖z k‖ * ‖w - unit‖ ≤ 2 * error := mul_le_mul bounded near (norm_nonneg _) zero_le_two
        linarith
      _ = (k + 1 : ℕ) * (step + 2 * error) := by
        push_cast
        ring

/-- The error of a product of two near numbers, of which one is at most two. -/
theorem product_near {a b u v : ℂ} {first second : ℝ} (bounded : ‖b‖ ≤ 2) (length : ‖u‖ = 1)
    (near : ‖a - u‖ ≤ first) (other : ‖b - v‖ ≤ second) : ‖a * b - u * v‖ ≤ 2 * first + second := by
  have parts : a * b - u * v = (a - u) * b + u * (b - v) := by ring
  have nonneg : 0 ≤ first := (norm_nonneg _).trans near
  rw [parts]
  refine (norm_add_le _ _).trans ?_
  rw [norm_mul, norm_mul, length, one_mul]
  have product : ‖a - u‖ * ‖b‖ ≤ first * 2 := mul_le_mul near bounded (norm_nonneg _) nonneg
  linarith

end Emblib.Phasor
