import Mathlib.Analysis.SpecialFunctions.Sqrt
import Emblib.Library.Binary

/-! The square root of a constant expression. The bits of the float give an estimate of the reciprocal
root, as half of them is about half of a logarithm; two steps of Newton's method refine it. From every
normal float the estimate is within four hundredths, each step about squares what is left, and what
the steps give is never too large. -/
namespace Emblib.FastRoots
open Binary

def binary32 : Format := ⟨8, 23⟩

/-- `fast_rsqrt` of a float, given by its bits. The products are exact. -/
def fastRsqrt (arg : BitVec 32) : ℚ :=
  let x2 := binary32.value arg.toNat * (1 / 2)
  let i := 0x5f3759df - (arg >>> 1)
  let y := binary32.value i.toNat
  let y := y * (3 / 2 - x2 * y * y)
  y * (3 / 2 - x2 * y * y)

def fltMin : ℚ := binary32.smallestNormal

def fastSqrt (arg : BitVec 32) : ℚ :=
  if binary32.value arg.toNat < fltMin then 0 else binary32.value arg.toNat * fastRsqrt arg

/-! ## A step of the refinement -/

section Newton
variable {K : Type} [Field K] [LinearOrder K] [IsStrictOrderedRing K] {x y error : K}

/-- What is left of the error after a step is about three quarters of its square. -/
theorem step_error (x y : K) :
    1 - x * (y * (3 / 2 - x * (1 / 2) * y * y)) ^ 2 = (1 - x * y ^ 2) ^ 2 * (4 - x * y ^ 2) / 4 := by
  ring

theorem step_positive (positive : 0 < y) (above : x * y ^ 2 < 3) : 0 < y * (3 / 2 - x * (1 / 2) * y * y) := by
  apply mul_pos positive
  linarith

/-- No step leaves too much, whatever side the error before it is on. -/
theorem step_below (above : x * y ^ 2 ≤ 4) : 0 ≤ 1 - x * (y * (3 / 2 - x * (1 / 2) * y * y)) ^ 2 := by
  rw [step_error]
  apply div_nonneg (mul_nonneg (sq_nonneg _) _) zero_le_four
  linarith

theorem step_bound (nonneg : 0 ≤ 1 - x * y ^ 2) (near : 1 - x * y ^ 2 ≤ error) :
    1 - x * (y * (3 / 2 - x * (1 / 2) * y * y)) ^ 2 ≤ error ^ 2 * (3 + error) / 4 := by
  have square : (1 - x * y ^ 2) ^ 2 ≤ error ^ 2 := pow_le_pow_left₀ nonneg near 2
  rw [step_error]
  apply div_le_div_of_nonneg_right _ zero_le_four
  apply mul_le_mul square _ _ (sq_nonneg error)
  · linarith
  · linarith

end Newton

/-! ## The estimate -/

variable {arg : BitVec 32} {e m E M : Nat}

/-- The fraction of the constant. -/
def magic : ℚ := 3627487 / 2 ^ 23

/-- The exponent of the argument is even and its fraction is not subtracted from the next exponent. -/
theorem product_even {t r : ℚ} (nonneg : 0 ≤ t) (below : t ≤ 2 * magic) (rest : 0 ≤ r) (last : r ≤ 1 / 2 ^ 23) :
    932 / 1000 ≤ (1 + t + r) * (1 + magic - t / 2) ^ 2 / 2 ∧
      (1 + t + r) * (1 + magic - t / 2) ^ 2 / 2 ≤ 10695 / 10000 := by
  unfold magic at *
  have inside := mul_nonneg nonneg (sub_nonneg.mpr below)
  constructor
  · nlinarith [mul_nonneg inside nonneg, mul_nonneg rest (sq_nonneg (1 + 3627487 / 2 ^ 23 - t / 2))]
  · have whole : (1 + t) * (1 + 3627487 / 2 ^ 23 - t / 2) ^ 2 / 2 ≤ 10694 / 10000 := by
      nlinarith [sq_nonneg (t - 288 / 1000), mul_nonneg nonneg (sq_nonneg (t - 288 / 1000))]
    nlinarith [sq_nonneg (1 + 3627487 / 2 ^ 23 - t / 2)]

theorem product_borrowed {t r : ℚ} (above : 2 * magic ≤ t) (below : t ≤ 1) (rest : 0 ≤ r) (last : r ≤ 1 / 2 ^ 23) :
    932 / 1000 ≤ (1 + t + r) * (2 + magic - t / 2) ^ 2 / 8 ∧
      (1 + t + r) * (2 + magic - t / 2) ^ 2 / 8 ≤ 10695 / 10000 := by
  unfold magic at *
  have inside := mul_nonneg (sub_nonneg.mpr above) (sub_nonneg.mpr below)
  constructor
  · nlinarith [mul_nonneg rest (sq_nonneg (2 + 3627487 / 2 ^ 23 - t / 2))]
  · nlinarith [sq_nonneg (2 + 3627487 / 2 ^ 23 - t / 2)]

theorem product_odd {t r : ℚ} (nonneg : 0 ≤ t) (below : t ≤ 1) (rest : 0 ≤ r) (last : r ≤ 1 / 2 ^ 23) :
    932 / 1000 ≤ (1 + t + r) * (3 / 2 + magic - t / 2) ^ 2 / 4 ∧
      (1 + t + r) * (3 / 2 + magic - t / 2) ^ 2 / 4 ≤ 10695 / 10000 := by
  unfold magic at *
  have inside := mul_nonneg nonneg (sub_nonneg.mpr below)
  constructor
  · nlinarith [mul_nonneg inside nonneg, mul_nonneg rest (sq_nonneg (3 / 2 + 3627487 / 2 ^ 23 - t / 2))]
  · have whole : (1 + t) * (3 / 2 + 3627487 / 2 ^ 23 - t / 2) ^ 2 / 4 ≤ 10694 / 10000 := by
      nlinarith [sq_nonneg (t - 622 / 1000), mul_nonneg nonneg (sq_nonneg (t - 622 / 1000))]
    nlinarith [sq_nonneg (3 / 2 + 3627487 / 2 ^ 23 - t / 2)]

/-- The product of the argument and the square of the estimate, by their fields. -/
theorem product_fields (scale : ℤ) (normal : e ≠ 0) (estimate : E ≠ 0) (exponents : (e : ℤ) + 2 * E = scale) :
    binary32.magnitude e m * binary32.magnitude E M ^ 2 =
      (1 + (m : ℚ) / 2 ^ 23) * (1 + (M : ℚ) / 2 ^ 23) ^ 2 * 2 ^ (scale - 381) := by
  have argument : binary32.magnitude e m = (1 + (m : ℚ) / 2 ^ 23) * 2 ^ ((e : ℤ) - 127) := by
    rw [Format.magnitude, if_neg normal]
    show (2 ^ 23 + (m : ℚ)) * 2 ^ ((e : ℤ) - 127 - 23) = _
    rw [zpow_sub₀ two_ne_zero]
    field_simp
  have root : binary32.magnitude E M = (1 + (M : ℚ) / 2 ^ 23) * 2 ^ ((E : ℤ) - 127) := by
    rw [Format.magnitude, if_neg estimate]
    show (2 ^ 23 + (M : ℚ)) * 2 ^ ((E : ℤ) - 127 - 23) = _
    rw [zpow_sub₀ two_ne_zero]
    field_simp
  have powers : (2 : ℚ) ^ (scale - 381) = 2 ^ ((e : ℤ) - 127) * (2 ^ ((E : ℤ) - 127)) ^ 2 := by
    rw [sq, ← zpow_add₀ two_ne_zero, ← zpow_add₀ two_ne_zero]
    congr 1
    omega
  rw [argument, root, powers]
  ring

/-- Half of the bits of a normal float, taken from the constant. -/
theorem halved_bits (exponent : e < 256) (fraction : m < 2 ^ 23) (fields : arg.toNat = e * 2 ^ 23 + m) :
    (0x5f3759df - (arg >>> 1)).toNat = 1597463007 - (e * 2 ^ 23 + m) / 2 := by
  have half : (arg >>> 1).toNat = (e * 2 ^ 23 + m) / 2 := by
    rw [BitVec.toNat_ushiftRight, Nat.shiftRight_eq_div_pow, fields, pow_one]
  rw [BitVec.toNat_sub_of_le, half]
  · rfl
  · rw [BitVec.le_def, half]
    show _ ≤ 1597463007
    omega

/-- The square of the estimate is near the reciprocal of the argument. -/
def Near (x y : ℚ) : Prop := 932 / 1000 ≤ x * y ^ 2 ∧ x * y ^ 2 ≤ 10695 / 10000

/-- The product for each parity of the exponent, by the half of the fraction that is subtracted. -/
theorem product_near {k h r : Nat} (rest : r < 2) (fraction : 2 * h + r < 2 ^ 23) (above : k < 128) :
    (0 < k → h ≤ 3627487 →
      Near (binary32.magnitude (2 * k) (2 * h + r)) (binary32.magnitude (190 - k) (3627487 - h))) ∧
      (0 < k → 3627487 < h →
        Near (binary32.magnitude (2 * k) (2 * h + r)) (binary32.magnitude (189 - k) (12016095 - h))) ∧
      Near (binary32.magnitude (2 * k + 1) (2 * h + r)) (binary32.magnitude (189 - k) (7821791 - h)) := by
  let t : ℚ := h / 2 ^ 22
  let last : ℚ := r / 2 ^ 23
  have nonneg : 0 ≤ t := by positivity
  have below : t ≤ 1 := by
    have half : (h : ℚ) ≤ 2 ^ 22 := by
      exact_mod_cast (by omega : h ≤ 2 ^ 22)
    exact div_le_one_of_le₀ half (by positivity)
  have lastNonneg : 0 ≤ last := by positivity
  have lastBelow : last ≤ 1 / 2 ^ 23 := by
    apply div_le_div_of_nonneg_right _ (by positivity)
    exact_mod_cast Nat.le_of_lt_succ rest
  have argument : 1 + ((2 * h + r : Nat) : ℚ) / 2 ^ 23 = 1 + t + last := by
    show _ = 1 + (h : ℚ) / 2 ^ 22 + r / 2 ^ 23
    push_cast
    ring
  refine ⟨fun positive low => ?_, fun positive high => ?_, ?_⟩
  · have root : 1 + ((3627487 - h : Nat) : ℚ) / 2 ^ 23 = 1 + magic - t / 2 := by
      show _ = 1 + 3627487 / 2 ^ 23 - (h : ℚ) / 2 ^ 22 / 2
      push_cast [low]
      ring
    have under : t ≤ 2 * magic := by
      have cast : (h : ℚ) ≤ 3627487 := by exact_mod_cast low
      show (h : ℚ) / 2 ^ 22 ≤ 2 * (3627487 / 2 ^ 23)
      linarith
    have bounds := product_even nonneg under lastNonneg lastBelow
    rw [Near, product_fields 380 (by omega) (by omega) (by omega), argument, root]
    norm_num at bounds ⊢
    constructor <;> linarith
  · have root : 1 + ((12016095 - h : Nat) : ℚ) / 2 ^ 23 = 2 + magic - t / 2 := by
      show _ = 2 + 3627487 / 2 ^ 23 - (h : ℚ) / 2 ^ 22 / 2
      push_cast [(by omega : h ≤ 12016095)]
      ring
    have beyond : 2 * magic ≤ t := by
      have cast : (3627487 : ℚ) ≤ h := by exact_mod_cast high.le
      show 2 * (3627487 / 2 ^ 23) ≤ (h : ℚ) / 2 ^ 22
      linarith
    have bounds := product_borrowed beyond below lastNonneg lastBelow
    rw [Near, product_fields 378 (by omega) (by omega) (by omega), argument, root]
    norm_num at bounds ⊢
    constructor <;> linarith
  · have root : 1 + ((7821791 - h : Nat) : ℚ) / 2 ^ 23 = 3 / 2 + magic - t / 2 := by
      show _ = 3 / 2 + 3627487 / 2 ^ 23 - (h : ℚ) / 2 ^ 22 / 2
      push_cast [(by omega : h ≤ 7821791)]
      ring
    have bounds := product_odd nonneg below lastNonneg lastBelow
    rw [Near, product_fields 379 (by omega) (by omega) (by omega), argument, root]
    norm_num at bounds ⊢
    constructor <;> linarith

/-- The estimate of a normal float. -/
theorem estimate_near (large : fltMin ≤ binary32.value arg.toNat) :
    0 < binary32.value (0x5f3759df - (arg >>> 1)).toNat ∧
      Near (binary32.value arg.toNat) (binary32.value (0x5f3759df - (arg >>> 1)).toNat) := by
  obtain ⟨sign, normal⟩ := Format.normal_of_le large
  have fields := Format.fields_eq binary32 arg.isLt sign
  have inside : binary32.exponentOf arg.toNat < 256 := Format.exponent_lt binary32 arg.toNat
  have fraction : binary32.fractionOf arg.toNat < 2 ^ 23 := Format.fraction_lt binary32 arg.toNat
  generalize binary32.exponentOf arg.toNat = e at *
  generalize binary32.fractionOf arg.toNat = m at *
  have argument : binary32.value arg.toNat = binary32.magnitude e m := by
    rw [fields]
    exact Format.value_fields inside fraction
  have half := halved_bits inside fraction fields
  -- what the fields of the estimate are depends on the exponent's parity and on a borrow
  have conclude (E M : Nat) (exponent : 0 < E ∧ E < 256) (small : M < 2 ^ 23)
      (bits : 1597463007 - (e * 2 ^ 23 + m) / 2 = E * 2 ^ 23 + M)
      (near : Near (binary32.magnitude e m) (binary32.magnitude E M)) :
      0 < binary32.value (0x5f3759df - (arg >>> 1)).toNat ∧
        Near (binary32.value arg.toNat) (binary32.value (0x5f3759df - (arg >>> 1)).toNat) := by
    have root : binary32.value (0x5f3759df - (arg >>> 1)).toNat = binary32.magnitude E M := by
      rw [half, bits]
      exact Format.value_fields exponent.2 small
    rw [argument, root]
    exact ⟨Format.magnitude_pos exponent.1.ne' M, near⟩
  obtain ⟨h, r, rest, rfl⟩ : ∃ h r, r < 2 ∧ m = 2 * h + r :=
    ⟨m / 2, m % 2, Nat.mod_lt _ two_pos, (Nat.div_add_mod m 2).symm⟩
  rcases Nat.even_or_odd' e with ⟨k, rfl | rfl⟩
  · have above : k < 128 := by omega
    by_cases low : h ≤ 3627487
    · apply conclude (190 - k) (3627487 - h) (by omega) (by omega) (by omega)
      exact (product_near rest fraction above).1 (by omega) low
    · apply conclude (189 - k) (12016095 - h) (by omega) (by omega) (by omega)
      exact (product_near rest fraction above).2.1 (by omega) (not_le.mp low)
  · have above : k < 128 := by omega
    apply conclude (189 - k) (7821791 - h) (by omega) (by omega) (by omega)
    exact (product_near rest fraction above).2.2

/-! ## The roots -/

/-- The first step leaves less than four thousandths. -/
theorem first_step {q : ℚ} (low : 932 / 1000 ≤ q) (high : q ≤ 10695 / 10000) :
    (1 - q) ^ 2 * (4 - q) / 4 ≤ 355 / 10 ^ 5 := by
  rcases le_total q 1 with below | above
  · have square : (1 - q) ^ 2 ≤ (68 / 1000) ^ 2 := pow_le_pow_left₀ (by linarith) (by linarith) 2
    nlinarith
  · have square : (1 - q) ^ 2 ≤ (695 / 10000) ^ 2 := sq_le_sq' (by linarith) (by linarith)
    nlinarith

/-- After both steps the square of the result is less than a hundred thousandth too small. -/
theorem rsqrt_square (large : fltMin ≤ binary32.value arg.toNat) :
    0 < fastRsqrt arg ∧ 1 - 99 / 10 ^ 7 ≤ binary32.value arg.toNat * fastRsqrt arg ^ 2 ∧
      binary32.value arg.toNat * fastRsqrt arg ^ 2 ≤ 1 := by
  obtain ⟨positive, low, high⟩ := estimate_near large
  unfold fastRsqrt
  dsimp only
  generalize binary32.value (0x5f3759df - (arg >>> 1)).toNat = y at *
  generalize binary32.value arg.toNat = x at *
  have firstBelow := step_below (high.trans (by norm_num))
  have firstNear : 1 - x * (y * (3 / 2 - x * (1 / 2) * y * y)) ^ 2 ≤ 355 / 10 ^ 5 := by
    rw [step_error]
    exact first_step low high
  have firstPositive := step_positive positive (by linarith : x * y ^ 2 < 3)
  generalize y * (3 / 2 - x * (1 / 2) * y * y) = y1 at *
  have secondBelow := step_below (by linarith : x * y1 ^ 2 ≤ 4)
  have secondNear := step_bound firstBelow firstNear
  have secondPositive := step_positive firstPositive (by linarith : x * y1 ^ 2 < 3)
  have bound : ((355 : ℚ) / 10 ^ 5) ^ 2 * (3 + 355 / 10 ^ 5) / 4 ≤ 99 / 10 ^ 7 := by norm_num
  refine ⟨secondPositive, ?_, by linarith⟩
  linarith

/-- The reciprocal of the root of every normal float is met from below, within a part in two hundred thousand;
so is the root of every float that is not negative, but for those below the normal ones, which give zero. -/
theorem roots_near (arg : BitVec 32) :
    (fltMin ≤ binary32.value arg.toNat →
      (1 - 1 / 200000) * (1 / √(binary32.value arg.toNat)) ≤ fastRsqrt arg ∧
        fastRsqrt arg ≤ 1 / √(binary32.value arg.toNat)) ∧
      (0 ≤ binary32.value arg.toNat →
        fastSqrt arg ≤ √(binary32.value arg.toNat) ∧
          ((1 - 1 / 200000) * √(binary32.value arg.toNat) ≤ fastSqrt arg ∨
            √(binary32.value arg.toNat) < 1 / 2 ^ 63 ∧ fastSqrt arg = 0)) := by
  let x : ℝ := binary32.value arg.toNat
  by_cases normal : fltMin ≤ binary32.value arg.toNat
  · obtain ⟨positive, low, high⟩ := rsqrt_square normal
    have argument : 0 < binary32.value arg.toNat := (zpow_pos two_pos _).trans_le normal
    have root : 0 < √x := Real.sqrt_pos.mpr (Rat.cast_pos.mpr argument)
    have square : √x * √x = x := Real.mul_self_sqrt (Rat.cast_nonneg.mpr argument.le)
    have positiveReal : (0 : ℝ) < fastRsqrt arg := Rat.cast_pos.mpr positive
    have lowReal : 1 - 99 / 10 ^ 7 ≤ (√x * fastRsqrt arg) ^ 2 := by
      have cast : ((1 - 99 / 10 ^ 7 : ℚ) : ℝ) ≤ (binary32.value arg.toNat * fastRsqrt arg ^ 2 : ℚ) :=
        Rat.cast_le.mpr low
      rw [mul_pow, sq, square]
      push_cast at cast
      exact cast
    have highReal : (√x * fastRsqrt arg) ^ 2 ≤ 1 := by
      rw [mul_pow, sq, square]
      show (binary32.value arg.toNat : ℝ) * fastRsqrt arg ^ 2 ≤ 1
      exact_mod_cast high
    have above : √x * fastRsqrt arg ≤ 1 := (sq_le_one_iff₀ (mul_pos root positiveReal).le).mp highReal
    have below : 1 - 1 / 200000 ≤ √x * fastRsqrt arg := by
      apply le_of_sq_le_sq _ (mul_pos root positiveReal).le
      exact le_trans (by norm_num) lowReal
    have product : (fastSqrt arg : ℝ) = √x * (√x * fastRsqrt arg) := by
      rw [fastSqrt, if_neg (not_lt.mpr normal), ← mul_assoc, square, Rat.cast_mul]
    refine ⟨fun _ => ⟨?_, ?_⟩, fun _ => ⟨?_, .inl ?_⟩⟩
    · rw [mul_one_div, div_le_iff₀ root, mul_comm]
      exact below
    · rw [le_div_iff₀ root, mul_comm]
      exact above
    · rw [product]
      exact mul_le_of_le_one_right root.le above
    · rw [product, mul_comm]
      exact mul_le_mul_of_nonneg_left below root.le
  · have small : binary32.value arg.toNat < fltMin := not_le.mp normal
    have zero : fastSqrt arg = 0 := if_pos small
    have tiny : √x < 1 / 2 ^ 63 := by
      rw [Real.sqrt_lt' (by positivity)]
      have bound : x < (fltMin : ℝ) := Rat.cast_lt.mpr small
      have power : (fltMin : ℝ) = (1 / 2 ^ 63) ^ 2 := by
        have exact : fltMin = (1 / 2 ^ 63) ^ 2 := by
          show (2 : ℚ) ^ (1 - 127 : ℤ) = _
          norm_num
        rw [exact]
        norm_num
      rw [← power]
      exact bound
    refine ⟨fun large => absurd large normal, fun _ => ⟨?_, .inr ⟨tiny, zero⟩⟩⟩
    rw [zero, Rat.cast_zero]
    exact Real.sqrt_nonneg x

end Emblib.FastRoots
