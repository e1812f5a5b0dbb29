import Emblib.Svpwm

/-! Space-vector modulation by sectors is carrier-based modulation with the middle of the highest
and the lowest phase as offset. A sixth of a turn negates the phases and shifts them by one, and
takes the table of each sector to that of the next one; so it is enough to compare the two in the
first sector, where the phases are in order. -/
namespace Emblib.SvpwmAgreement
open Numbers Pwm Svpwm
open DqControl (UnsignedPu)
open Real (pi sin cos)

/-! ## A sixth of a turn -/

section Turn
variable {K : Type} [Field K]

/-- The phase behind a phase. -/
def next : Phase → Phase := perPhase .b .c .a

/-- The phases after a sixth of a turn. -/
def turn (Vs : Phase → K) : Phase → K := fun phase => -Vs (next phase)

/-- The tables of two sectors that follow each other. -/
theorem durations_turn [CharZero K] {tb1 tb2 : K} {sector : Nat} (inside : sector < 5) (phase : Phase) :
    pulseDurations (sector + 1 : Nat) tb1 tb2 ((1 - tb1 - tb2) / 2) phase =
      1 - pulseDurations sector tb1 tb2 ((1 - tb1 - tb2) / 2) (next phase) := by
  have off : (1 - tb1 - tb2) / 2 = 1 - (tb1 + tb2 + (1 - tb1 - tb2) / 2) := by ring
  have first : tb1 + (1 - tb1 - tb2) / 2 = 1 - (tb2 + (1 - tb1 - tb2) / 2) := by ring
  have second : tb2 + (1 - tb1 - tb2) / 2 = 1 - (tb1 + (1 - tb1 - tb2) / 2) := by ring
  have on : tb1 + tb2 + (1 - tb1 - tb2) / 2 = 1 - (1 - tb1 - tb2) / 2 := by ring
  have each : sector = 0 ∨ sector = 1 ∨ sector = 2 ∨ sector = 3 ∨ sector = 4 := by omega
  -- every pulse of the next sector is one of the four above
  rcases each with rfl | rfl | rfl | rfl | rfl <;> cases phase <;>
    first | exact off | exact first | exact second | exact on

variable [LinearOrder K] [IsStrictOrderedRing K]

theorem lowest_turn (Vs : Phase → K) (factor : K) :
    lowest (turn Vs .a * factor) (turn Vs .b * factor) (turn Vs .c * factor) =
      -highest (Vs .a * factor) (Vs .b * factor) (Vs .c * factor) := by
  have turned : lowest (turn Vs .a * factor) (turn Vs .b * factor) (turn Vs .c * factor) =
      lowest (-(Vs .b * factor)) (-(Vs .c * factor)) (-(Vs .a * factor)) := by
    rw [← neg_mul, ← neg_mul, ← neg_mul]
    rfl
  rw [turned, lowest, highest, min_neg_neg, min_neg_neg, max_comm, max_assoc]

theorem highest_turn (Vs : Phase → K) (factor : K) :
    highest (turn Vs .a * factor) (turn Vs .b * factor) (turn Vs .c * factor) =
      -lowest (Vs .a * factor) (Vs .b * factor) (Vs .c * factor) := by
  have turned : highest (turn Vs .a * factor) (turn Vs .b * factor) (turn Vs .c * factor) =
      highest (-(Vs .b * factor)) (-(Vs .c * factor)) (-(Vs .a * factor)) := by
    rw [← neg_mul, ← neg_mul, ← neg_mul]
    rfl
  rw [turned, lowest, highest, max_neg_neg, max_neg_neg, min_comm, min_assoc]

theorem duty_turn (Vs : Phase → K) (Vdc : K) (phase : Phase) :
    duty .svpwm (turn Vs) Vdc phase = 1 - duty .svpwm Vs Vdc (next phase) := by
  unfold duty PwmMode.offset PwmMode.svpwmOffset
  dsimp only
  rw [lowest_turn, highest_turn, turn]
  ring

/-- What agrees in the first sector agrees in all of them. -/
theorem durations_duty {tb1 tb2 Vdc : K} {Vs : Phase → K}
    (first : ∀ phase, pulseDurations 0 tb1 tb2 ((1 - tb1 - tb2) / 2) phase = duty .svpwm Vs Vdc phase)
    (sector : Nat) (inside : sector ≤ 5) (phase : Phase) :
    pulseDurations sector tb1 tb2 ((1 - tb1 - tb2) / 2) phase =
      duty .svpwm (turn^[sector] Vs) Vdc phase := by
  induction sector generalizing phase with
  | zero => exact first phase
  | succ sector ih =>
    rw [durations_turn (Nat.lt_of_succ_le inside), Function.iterate_succ_apply', duty_turn, ih (by omega)]

/-! ## The first sector -/

/-- Phases in order, by the times of the two base vectors of the first sector. -/
theorem duty_first {tb1 tb2 Vdc : K} {Vs : Phase → K} (positive : 0 < Vdc)
    (nonneg1 : 0 ≤ tb1) (nonneg2 : 0 ≤ tb2) (Va : Vs .a = Vdc * ((2 * tb1 + tb2) / 3))
    (Vb : Vs .b = Vdc * ((tb2 - tb1) / 3)) (Vc : Vs .c = -(Vdc * ((tb1 + 2 * tb2) / 3)))
    (phase : Phase) :
    pulseDurations 0 tb1 tb2 ((1 - tb1 - tb2) / 2) phase = duty .svpwm Vs Vdc phase := by
  have normalized (x : K) : Vdc * x * (2 / Vdc) = 2 * x := by
    rw [mul_right_comm, mul_div_cancel₀ _ positive.ne']
  have a : Vs .a * (2 / Vdc) = 2 * ((2 * tb1 + tb2) / 3) := by rw [Va, normalized]
  have b : Vs .b * (2 / Vdc) = 2 * ((tb2 - tb1) / 3) := by rw [Vb, normalized]
  have c : Vs .c * (2 / Vdc) = -(2 * ((tb1 + 2 * tb2) / 3)) := by rw [Vc, neg_mul, normalized]
  have ab : Vs .b * (2 / Vdc) ≤ Vs .a * (2 / Vdc) := by
    rw [a, b]
    linarith
  have bc : Vs .c * (2 / Vdc) ≤ Vs .b * (2 / Vdc) := by
    rw [b, c]
    linarith
  have offset : PwmMode.svpwm.offset (Vs .a * (2 / Vdc)) (Vs .b * (2 / Vdc)) (Vs .c * (2 / Vdc)) =
      (tb2 - tb1) / 3 := by
    have top : highest (Vs .a * (2 / Vdc)) (Vs .b * (2 / Vdc)) (Vs .c * (2 / Vdc)) =
        Vs .a * (2 / Vdc) := by
      rw [highest, max_eq_left ab, max_eq_left (bc.trans ab)]
    have bottom : lowest (Vs .a * (2 / Vdc)) (Vs .b * (2 / Vdc)) (Vs .c * (2 / Vdc)) =
        Vs .c * (2 / Vdc) := by
      rw [lowest, min_eq_right ab, min_eq_right bc]
    rw [PwmMode.offset, PwmMode.svpwmOffset, top, bottom, a, c]
    ring
  rw [duty, offset]
  cases phase with
  | a =>
    rw [a]
    change tb1 + tb2 + _ = _
    ring
  | b =>
    rw [b]
    change tb2 + _ = _
    ring
  | c =>
    rw [c]
    change (1 - tb1 - tb2) / 2 = _
    ring

end Turn

/-! ## The phases of a vector -/

/-- The voltages of the three phases. -/
noncomputable def phaseVoltages (mag theta : ℝ) : Phase → ℝ :=
  perPhase (mag * cos theta) (mag * cos (theta - 2 * pi / 3)) (mag * cos (theta + 2 * pi / 3))

theorem phaseVoltages_turn (mag theta : ℝ) :
    phaseVoltages mag (theta + pi / 3) = turn (phaseVoltages mag theta) := by
  have a : theta + pi / 3 = theta - 2 * pi / 3 + pi := by ring
  have b : theta + pi / 3 - 2 * pi / 3 = theta + 2 * pi / 3 - pi := by ring
  have c : theta + pi / 3 + 2 * pi / 3 = theta + pi := by ring
  funext phase
  cases phase with
  | a =>
    change mag * cos (theta + pi / 3) = -(mag * cos (theta - 2 * pi / 3))
    rw [a, Real.cos_add_pi, mul_neg]
  | b =>
    change mag * cos (theta + pi / 3 - 2 * pi / 3) = -(mag * cos (theta + 2 * pi / 3))
    rw [b, Real.cos_sub_pi, mul_neg]
  | c =>
    change mag * cos (theta + pi / 3 + 2 * pi / 3) = -(mag * cos theta)
    rw [c, Real.cos_add_pi, mul_neg]

/-- The phases in a sector are those in the first one, turned. -/
theorem phaseVoltages_sector (mag theta : ℝ) (sector : Nat) :
    phaseVoltages mag (theta + sector * (pi / 3)) = turn^[sector] (phaseVoltages mag theta) := by
  induction sector with
  | zero => rw [Nat.cast_zero, zero_mul, add_zero, Function.iterate_zero, id]
  | succ sector ih =>
    have next : theta + (sector + 1 : Nat) * (pi / 3) = theta + sector * (pi / 3) + pi / 3 := by
      push_cast
      ring
    rw [next, phaseVoltages_turn, ih, Function.iterate_succ_apply']

/-- Full circles do not change the phases. -/
theorem phaseVoltages_circles (mag theta : ℝ) (circles : ℤ) :
    phaseVoltages mag (theta + circles * twoPi) = phaseVoltages mag theta := by
  have behind : theta + circles * twoPi - 2 * pi / 3 = theta - 2 * pi / 3 + circles * twoPi := by ring
  have ahead : theta + circles * twoPi + 2 * pi / 3 = theta + 2 * pi / 3 + circles * twoPi := by ring
  unfold phaseVoltages
  rw [behind, ahead, twoPi, Real.cos_add_int_mul_two_pi, Real.cos_add_int_mul_two_pi,
    Real.cos_add_int_mul_two_pi]

/-- The phases by the times of the base vectors of the first sector. -/
theorem phaseVoltages_baseTime {mag Vdc : ℝ} (positive : 0 < Vdc) (low : 0 ≤ mag)
    (high : mag ≤ Vdc / √3) (theta : ℝ) :
    let tb1 := baseTime mag Vdc (pi / 3 - theta)
    let tb2 := baseTime mag Vdc theta
    phaseVoltages mag theta .a = Vdc * ((2 * tb1 + tb2) / 3) ∧
      phaseVoltages mag theta .b = Vdc * ((tb2 - tb1) / 3) ∧
      phaseVoltages mag theta .c = -(Vdc * ((tb1 + 2 * tb2) / 3)) := by
  intro tb1 tb2
  have square : √3 * √3 = 3 := Real.mul_self_sqrt (by norm_num)
  have scaled (angle : ℝ) : Vdc * baseTime mag Vdc angle = √3 * mag * sin angle := by
    rw [baseTime, clamp_inside low high]
    field_simp
  have second : Vdc * tb2 = √3 * mag * sin theta := scaled theta
  have first : Vdc * tb1 = mag * (3 / 2 * cos theta - √3 / 2 * sin theta) := by
    calc
      _ = √3 * mag * sin (pi / 3 - theta) := scaled _
      _ = √3 * mag * (√3 / 2 * cos theta - 1 / 2 * sin theta) := by
        rw [Real.sin_sub, Real.sin_pi_div_three, Real.cos_pi_div_three]
      _ = mag * (√3 * √3 / 2 * cos theta - √3 / 2 * sin theta) := by ring
      _ = _ := by rw [square]
  have b : theta - 2 * pi / 3 = theta + pi / 3 - pi := by ring
  have c : theta + 2 * pi / 3 = theta - pi / 3 + pi := by ring
  refine ⟨?_, ?_, ?_⟩
  · change mag * cos theta = _
    linarith
  · change mag * cos (theta - 2 * pi / 3) = _
    rw [b, Real.cos_sub_pi, Real.cos_add, Real.cos_pi_div_three, Real.sin_pi_div_three]
    linarith
  · change mag * cos (theta + 2 * pi / 3) = _
    rw [c, Real.cos_add_pi, Real.cos_sub, Real.cos_pi_div_three, Real.sin_pi_div_three]
    linarith

/-! ## Agreement -/

/-- Without rounding the normalization takes full circles off the angle, and leaves less than one. -/
theorem norm2pi_exact (v : ℝ) :
    (∃ circles : ℤ, v = norm2pi id v + circles * twoPi) ∧ norm2pi id v < twoPi := by
  obtain ⟨low, high⟩ := fmod_range twoPi_pos v
  unfold norm2pi
  dsimp only [id]
  split
  case isTrue negative =>
    refine ⟨⟨truncate (v / twoPi) - 1, ?_⟩, by linarith⟩
    rw [fmod]
    push_cast
    ring
  case isFalse nonneg =>
    refine ⟨⟨truncate (v / twoPi), ?_⟩, high⟩
    rw [fmod]
    ring

theorem remainder_range {theta : ℝ} (low : 0 ≤ theta) :
    0 ≤ remainder theta ∧ remainder theta ≤ pi / 3 := by
  have whole : remainder theta = fmod theta (pi / 3) := rfl
  obtain ⟨nonneg, below⟩ := fmod_nonneg (div_pos Real.pi_pos three_pos) low
  exact ⟨whole ▸ nonneg, whole ▸ below.le⟩

/-- The durations of a normalized angle are the duties of its phases. -/
theorem svpwmAt_duty {mag theta Vdc : ℝ} (positive : 0 < Vdc) (low : 0 ≤ mag) (high : mag ≤ Vdc / √3)
    (nonneg : 0 ≤ theta) (below : theta < twoPi) (phase : Phase) :
    svpwmAt mag theta Vdc phase = .new (duty .svpwm (phaseVoltages mag theta) Vdc phase) := by
  obtain ⟨first, last⟩ := sectorOf_range nonneg below
  obtain ⟨sector, number⟩ := Int.eq_ofNat_of_zero_le first
  obtain ⟨start, stop⟩ := remainder_range nonneg
  have whole := Real.pi_pos
  have split : theta = remainder theta + sector * (pi / 3) := by
    rw [remainder, number, Int.cast_natCast]
    ring
  obtain ⟨a, b, c⟩ := phaseVoltages_baseTime positive low high (remainder theta)
  have agree := durations_duty (duty_first positive (baseTime_nonneg positive (by linarith) (by linarith))
    (baseTime_nonneg positive start (by linarith)) a b c) sector (by omega) phase
  rw [svpwmAt_durations, number, agree, ← phaseVoltages_sector, ← split]

theorem svpwmV2_modulate {Vs : Phase → ℝ} {Vdc : ℝ} (positive : 0 < Vdc) :
    calculateSvpwmV2 Vs Vdc = modulate .svpwm Vs Vdc := by
  rw [modulate, if_neg (not_le.mpr positive)]
  rfl

/-- **Sector-based and min/max modulation agree.** -/
theorem svpwm_agrees {mag Vdc : ℝ} (positive : 0 < Vdc) (low : 0 ≤ mag) (high : mag ≤ Vdc / √3)
    (theta : ℝ) :
    calculateSvpwm id ⟨mag, theta⟩ Vdc = calculateSvpwmV2 (phaseVoltages mag theta) Vdc ∧
      calculateSvpwm id ⟨mag, theta⟩ Vdc = modulate .svpwm (phaseVoltages mag theta) Vdc := by
  rw [svpwmV2_modulate positive, and_self]
  obtain ⟨⟨circles, angle⟩, below⟩ := norm2pi_exact theta
  have nonneg := (norm2pi_range (fun _ low high => ⟨low, high⟩ : Contained id) theta).1
  have phases : phaseVoltages mag theta = phaseVoltages mag (norm2pi id theta) := by
    rw [← phaseVoltages_circles mag (norm2pi id theta) circles, ← angle]
  funext phase
  rw [modulate_duty positive, phases]
  exact svpwmAt_duty positive low high nonneg below phase

theorem svpwm_agrees_testing :
    calculateSvpwm id ⟨1, 4⟩ 3 = calculateSvpwmV2 (phaseVoltages 1 4) 3 ∧
      calculateSvpwm id ⟨1, 4⟩ 3 = modulate .svpwm (phaseVoltages 1 4) 3 := by
  refine svpwm_agrees three_pos zero_le_one ?_ 4
  rw [Real.div_sqrt, Real.one_le_sqrt]
  norm_num

end Emblib.SvpwmAgreement
