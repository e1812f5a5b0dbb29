import Mathlib.Analysis.SpecialFunctions.Trigonometric.Basic
import Emblib.Library.Numbers
import Emblib.Pwm

/-! Space-vector modulation. The angle is normalized, its sector selects one of six tables of
pulse durations. All is exact but the last addition of the normalization, which may round: the
addition may then give the full circle, and the full circle is in no sector. -/
namespace Emblib.Svpwm
open Numbers Pwm
open DqControl (UnsignedPu)
open Real (pi sin)

/-- The six sectors, and the durations before any of them is selected. -/
def pulseDurations {K : Type} [Field K] (sector : ℤ) (tb1 tb2 tb0 : K) : Phase → K :=
  match sector with
  | 0 => perPhase (tb1 + tb2 + tb0) (tb2 + tb0) tb0
  | 1 => perPhase (tb1 + tb0) (tb1 + tb2 + tb0) tb0
  | 2 => perPhase tb0 (tb1 + tb2 + tb0) (tb2 + tb0)
  | 3 => perPhase tb0 (tb1 + tb0) (tb1 + tb2 + tb0)
  | 4 => perPhase (tb2 + tb0) tb0 (tb1 + tb2 + tb0)
  | 5 => perPhase (tb1 + tb2 + tb0) tb0 (tb1 + tb0)
  | _ => perPhase 0 0 0

noncomputable section

def twoPi : ℝ := 2 * pi

/-- `norm2pi` with the rounding of its addition. -/
def norm2pi (round : ℝ → ℝ) (v : ℝ) : ℝ :=
  let v := fmod v twoPi
  if v < 0 then round (v + twoPi) else v

/-- `vec_polar`. -/
structure VecPolar where
  mag : ℝ
  theta : ℝ

/-- The sector of a normalized angle. -/
def sectorOf (theta : ℝ) : ℤ := truncate (theta / (pi / 3))

/-- `calculate_svpwm` behind the normalization of the angle. -/
def svpwmAt (mag theta Vdc : ℝ) : Phase → UnsignedPu ℝ :=
  let mag := clamp mag 0 (Vdc / √3)
  let sector := sectorOf theta
  let theta := theta - sector * (pi / 3)
  -- base vector times calculation
  let tb1 := √3 * (mag / Vdc) * sin (pi / 3 - theta)
  let tb2 := √3 * (mag / Vdc) * sin theta
  let tb0 := (1 - tb1 - tb2) / 2
  fun phase => .new (pulseDurations sector tb1 tb2 tb0 phase)

def calculateSvpwm (round : ℝ → ℝ) (Vs : VecPolar) (Vdc : ℝ) : Phase → UnsignedPu ℝ :=
  svpwmAt Vs.mag (norm2pi round Vs.theta) Vdc

def calculateSvpwmV2 (Vs : Phase → ℝ) (Vdc : ℝ) : Phase → UnsignedPu ℝ :=
  -- normalization: [-1, +1]
  let inv := 2 / Vdc
  let Va := Vs .a * inv
  let Vb := Vs .b * inv
  let Vc := Vs .c * inv
  -- common-mode offset
  let Voff := -(1 / 2) * (highest Va Vb Vc + lowest Va Vb Vc)
  perPhase (.new ((Va + Voff + 1) * (1 / 2))) (.new ((Vb + Voff + 1) * (1 / 2)))
    (.new ((Vc + Voff + 1) * (1 / 2)))

end

/-! ## The normalized angle -/

theorem twoPi_pos : 0 < twoPi := Real.two_pi_pos

/-- The rounding does not leave the circle. -/
def Contained (round : ℝ → ℝ) : Prop := ∀ x, 0 ≤ x → x ≤ twoPi → 0 ≤ round x ∧ round x ≤ twoPi

/-- The addition of the normalization gives the full circle. -/
def RoundsUp (round : ℝ → ℝ) (v : ℝ) : Prop := fmod v twoPi < 0 ∧ round (fmod v twoPi + twoPi) = twoPi

variable {round : ℝ → ℝ}

theorem norm2pi_range (contained : Contained round) (v : ℝ) :
    0 ≤ norm2pi round v ∧ norm2pi round v ≤ twoPi := by
  obtain ⟨low, high⟩ := fmod_range twoPi_pos v
  unfold norm2pi
  dsimp only
  split
  case isTrue negative => exact contained _ (by linarith) (by linarith)
  case isFalse nonneg => exact ⟨not_lt.mp nonneg, high.le⟩

/-- The normalized angle is the full circle only if the addition gives it. -/
theorem norm2pi_full (v : ℝ) : norm2pi round v = twoPi ↔ RoundsUp round v := by
  unfold norm2pi RoundsUp
  dsimp only
  split
  case isTrue negative => exact (and_iff_right negative).symm
  case isFalse nonneg => exact iff_of_false (fmod_range twoPi_pos v).2.ne (not_and_of_not_left _ nonneg)

/-! ## The sector -/

theorem sectorOf_range {theta : ℝ} (low : 0 ≤ theta) (high : theta < twoPi) :
    0 ≤ sectorOf theta ∧ sectorOf theta ≤ 5 := by
  have third : 0 < pi / 3 := div_pos Real.pi_pos three_pos
  have nonneg : 0 ≤ theta / (pi / 3) := div_nonneg low third.le
  have below : theta / (pi / 3) < 6 := by
    rw [div_lt_iff₀ third]
    unfold twoPi at high
    linarith
  rw [sectorOf, truncate_floor nonneg]
  refine ⟨Int.floor_nonneg.mpr nonneg, Int.lt_add_one_iff.mp (Int.floor_lt.mpr ?_)⟩
  exact_mod_cast below

theorem sectorOf_full : sectorOf twoPi = 6 := by
  have quotient : twoPi / (pi / 3) = (6 : ℤ) := by
    unfold twoPi
    field_simp
    norm_num
  rw [sectorOf, quotient, truncate_floor (by norm_num), Int.floor_intCast]

/-- The angle behind the first base vector of its sector. -/
noncomputable def remainder (theta : ℝ) : ℝ := theta - sectorOf theta * (pi / 3)

/-- The time of a base vector at this angle from the other one. -/
noncomputable def baseTime (mag Vdc angle : ℝ) : ℝ := √3 * (clamp mag 0 (Vdc / √3) / Vdc) * sin angle

theorem svpwmAt_durations (mag theta Vdc : ℝ) (phase : Phase) :
    svpwmAt mag theta Vdc phase =
      .new (pulseDurations (sectorOf theta) (baseTime mag Vdc (pi / 3 - remainder theta))
        (baseTime mag Vdc (remainder theta))
        ((1 - baseTime mag Vdc (pi / 3 - remainder theta) - baseTime mag Vdc (remainder theta)) / 2)
        phase) := rfl

/-- No base vector has a negative time. -/
theorem baseTime_nonneg {mag Vdc angle : ℝ} (positive : 0 < Vdc) (low : 0 ≤ angle) (high : angle ≤ pi) :
    0 ≤ baseTime mag Vdc angle := by
  have magnitude : 0 ≤ clamp mag 0 (Vdc / √3) :=
    (clamp_range (div_nonneg positive.le (Real.sqrt_nonneg 3))).1
  exact mul_nonneg (mul_nonneg (Real.sqrt_nonneg 3) (div_nonneg magnitude positive.le))
    (Real.sin_nonneg_of_nonneg_of_le_pi low high)

/-- The pulses of no sector are never active. -/
theorem svpwmAt_full (mag Vdc : ℝ) (phase : Phase) : (svpwmAt mag twoPi Vdc phase).value = 0 := by
  have durations (tb1 tb2 tb0 : ℝ) : pulseDurations 6 tb1 tb2 tb0 phase = 0 := by
    cases phase <;> rfl
  rw [svpwmAt_durations, sectorOf_full, durations]
  exact new_value le_rfl zero_le_one

theorem sectorOf_iff {theta : ℝ} (low : 0 ≤ theta) (high : theta ≤ twoPi) :
    (0 ≤ sectorOf theta ∧ sectorOf theta ≤ 5) ↔ theta ≠ twoPi := by
  constructor
  · rintro ⟨_, inside⟩ rfl
    rw [sectorOf_full] at inside
    exact absurd inside (by norm_num)
  · exact fun other => sectorOf_range low (high.lt_of_ne other)

/-- One of the six sectors is selected, and the duties of the full circle are those of none of it. -/
structure SelectsSector (round : ℝ → ℝ) (Vs : VecPolar) (Vdc : ℝ) : Prop where
  sector : 0 ≤ sectorOf (norm2pi round Vs.theta) ∧ sectorOf (norm2pi round Vs.theta) ≤ 5
  full : norm2pi round Vs.theta = twoPi →
    calculateSvpwm round Vs Vdc = calculateSvpwm round ⟨Vs.mag, 0⟩ Vdc

/-- **A sector is selected unless the normalization rounds up to the full circle.** -/
theorem selects_sector_iff {round : ℝ → ℝ} (contained : Contained round) (Vs : VecPolar) (Vdc : ℝ) :
    SelectsSector round Vs Vdc ↔ ¬RoundsUp round Vs.theta := by
  obtain ⟨low, high⟩ := norm2pi_range contained Vs.theta
  rw [← norm2pi_full]
  constructor
  · exact fun selects => (sectorOf_iff low high).mp selects.sector
  · exact fun other => ⟨(sectorOf_iff low high).mpr other, fun full => absurd full other⟩

/-- The sum in single precision, as far as it concerns the numbers just below the full circle. -/
noncomputable def nearest (x : ℝ) : ℝ := if twoPi - 1 / 2 ^ 22 < x then twoPi else x

theorem nearest_contained : Contained nearest := by
  intro x low high
  unfold nearest
  split
  · exact ⟨twoPi_pos.le, le_rfl⟩
  · exact ⟨low, high⟩

theorem fmod_zero : fmod 0 twoPi = 0 := fmod_small (neg_lt_zero.mpr twoPi_pos) twoPi_pos

/-- A negative angle that is not so small. -/
theorem selects_sector_iff_testing : SelectsSector nearest ⟨1, -1⟩ 3 := by
  refine (selects_sector_iff nearest_contained ⟨1, -1⟩ 3).mpr ?_
  rintro ⟨_, full⟩
  have wide : 4 ≤ twoPi := by
    unfold twoPi
    linarith [Real.two_le_pi]
  have lower : ¬twoPi - 1 / 2 ^ 22 < -1 + twoPi := by
    norm_num
    linarith
  rw [fmod_small (by linarith) (by linarith), nearest, if_neg lower] at full
  linarith

/-- The first phase is switched on at the angle zero. -/
theorem svpwmAt_zero (mag : ℝ) {Vdc : ℝ} (positive : 0 < Vdc) : (svpwmAt mag 0 Vdc .a).value ≠ 0 := by
  have sector : sectorOf 0 = 0 := by
    rw [sectorOf, zero_div, truncate_floor le_rfl, Int.floor_zero]
  have none : remainder 0 = 0 := by
    rw [remainder, sector, Int.cast_zero, zero_mul, sub_zero]
  have first : 0 ≤ baseTime mag Vdc (pi / 3) :=
    baseTime_nonneg positive (by linarith [Real.pi_pos]) (by linarith [Real.pi_pos])
  have second : baseTime mag Vdc 0 = 0 := by
    rw [baseTime, Real.sin_zero, mul_zero]
  have duration :
      pulseDurations 0 (baseTime mag Vdc (pi / 3)) 0 ((1 - baseTime mag Vdc (pi / 3) - 0) / 2) .a =
      (1 + baseTime mag Vdc (pi / 3)) / 2 := by
    change _ + 0 + _ = _
    ring
  have switched : 0 < (1 + baseTime mag Vdc (pi / 3)) / 2 := by linarith
  rw [svpwmAt_durations, sector, none, sub_zero, second, duration]
  exact new_ne_zero switched

/-- A negative angle so small that the normalization gives the full circle. -/
theorem full_circle_unselected :
    let angle : ℝ := -(1 / 2 ^ 30)
    ¬SelectsSector nearest ⟨1, angle⟩ 3 ∧
      (∀ phase, (calculateSvpwm nearest ⟨1, angle⟩ 3 phase).value = 0) ∧
      (calculateSvpwm nearest ⟨1, 0⟩ 3 .a).value ≠ 0 := by
  intro angle
  have full : norm2pi nearest angle = twoPi := by
    have wide : 4 ≤ twoPi := by
      unfold twoPi
      linarith [Real.two_le_pi]
    have small : fmod angle twoPi = angle :=
      fmod_small (by norm_num [angle]; linarith) (by norm_num [angle]; linarith)
    refine (norm2pi_full angle).mpr ?_
    rw [RoundsUp, small]
    refine ⟨by norm_num [angle], if_pos ?_⟩
    norm_num [angle]
    linarith
  have dark (phase : Phase) : (calculateSvpwm nearest ⟨1, angle⟩ 3 phase).value = 0 := by
    rw [calculateSvpwm, full]
    exact svpwmAt_full 1 3 phase
  have bright : (calculateSvpwm nearest ⟨1, 0⟩ 3 .a).value ≠ 0 := by
    have zero : norm2pi nearest 0 = 0 := by
      rw [norm2pi, fmod_zero, if_neg (lt_irrefl 0)]
    rw [calculateSvpwm, zero]
    exact svpwmAt_zero 1 three_pos
  refine ⟨fun selects => ?_, dark, bright⟩
  have same := congrFun (selects.full full) .a
  rw [← same, dark] at bright
  exact bright rfl

end Emblib.Svpwm
