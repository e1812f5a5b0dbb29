import Mathlib.Tactic.FieldSimp
import Emblib.DqControl

/-! Carrier-based pulse-width modulation in exact arithmetic. All modes but the sinusoidal one
add the same offset to the three phases, which leaves the voltages between the phases alone as
long as it keeps the shifted phases between the rails. -/
namespace Emblib.Pwm
open DqControl (UnsignedPu)

/-- One proof for the numerals of all definitions about voltages. -/
instance atLeastTwo_two : Nat.AtLeastTwo 2 := ⟨Nat.le_refl 2⟩

instance atLeastTwo_three : Nat.AtLeastTwo 3 := ⟨Nat.le_succ 2⟩

/-- The index of an array of three phases. -/
inductive Phase where
  | a
  | b
  | c
  deriving DecidableEq, Repr

/-- An array of three phases. -/
def perPhase {A : Type} (a b c : A) : Phase → A
  | .a => a
  | .b => b
  | .c => c

variable {K : Type} [Field K] [LinearOrder K]

/-! ## `pwm_mode` -/

inductive PwmMode where
  | spwm
  | svpwm
  | dpwm1
  | dpwm0
  | dpwm2
  | dpwm3
  | dpwmmin
  | dpwmmax
  deriving DecidableEq, Repr

/-- `std::min` of three values, and the first of `std::minmax`. -/
def lowest (Va Vb Vc : K) : K := min (min Va Vb) Vc

/-- `std::max` of three values, and the second of `std::minmax`. -/
def highest (Va Vb Vc : K) : K := max (max Va Vb) Vc

namespace PwmMode

def svpwmOffset (Va Vb Vc : K) : K := -(1 / 2) * (highest Va Vb Vc + lowest Va Vb Vc)

def dpwm1Offset (Va Vb Vc : K) : K :=
  let mn := lowest Va Vb Vc
  let mx := highest Va Vb Vc
  if mx + mn > 0 then 1 - mx else -1 - mn

def dpwm0Offset (Va Vb Vc : K) : K :=
  let mn := lowest Va Vb Vc
  let mx := highest Va Vb Vc
  let clampLow := (Va ≥ Vb ∧ Vb ≥ Vc) ∨ (Vb ≥ Vc ∧ Vc ≥ Va) ∨ (Vc ≥ Va ∧ Va ≥ Vb)
  if clampLow then -1 - mn else 1 - mx

def dpwm2Offset (Va Vb Vc : K) : K :=
  let mn := lowest Va Vb Vc
  let mx := highest Va Vb Vc
  let clampHigh := (Va ≥ Vb ∧ Vb ≥ Vc) ∨ (Vb ≥ Vc ∧ Vc ≥ Va) ∨ (Vc ≥ Va ∧ Va ≥ Vb)
  if clampHigh then 1 - mx else -1 - mn

def dpwm3Offset (Va Vb Vc : K) : K :=
  let mn := lowest Va Vb Vc
  let mx := highest Va Vb Vc
  let mid := Va + Vb + Vc - mx - mn
  if mid > 0 then 1 - mx else -1 - mn

/-- `offset` of the modes. -/
def offset (mode : PwmMode) (Va Vb Vc : K) : K :=
  match mode with
  | spwm => 0
  | svpwm => svpwmOffset Va Vb Vc
  | dpwm1 => dpwm1Offset Va Vb Vc
  | dpwm0 => dpwm0Offset Va Vb Vc
  | dpwm2 => dpwm2Offset Va Vb Vc
  | dpwm3 => dpwm3Offset Va Vb Vc
  | dpwmmin => -1 - lowest Va Vb Vc
  | dpwmmax => 1 - highest Va Vb Vc

/-- The modes that keep one phase from switching. -/
def IsDiscontinuous : PwmMode → Prop
  | spwm => False
  | svpwm => False
  | _ => True

end PwmMode

/-! ## `modulate` -/

variable [IsStrictOrderedRing K]

def modulate (mode : PwmMode) (Vs : Phase → K) (Vdc : K) : Phase → UnsignedPu K :=
  if Vdc ≤ 0 then
    fun _ => .new (1 / 2)
  else
    -- normalization: [-1, +1]
    let inv := 2 / Vdc
    let Va := Vs .a * inv
    let Vb := Vs .b * inv
    let Vc := Vs .c * inv
    -- common-mode offset
    let Voff := mode.offset Va Vb Vc
    perPhase (.new ((Va + Voff + 1) * (1 / 2))) (.new ((Vb + Voff + 1) * (1 / 2)))
      (.new ((Vc + Voff + 1) * (1 / 2)))

/-- What the clamp of `unsigned_pu` gets. -/
def duty (mode : PwmMode) (Vs : Phase → K) (Vdc : K) (phase : Phase) : K :=
  (Vs phase * (2 / Vdc) +
    mode.offset (Vs .a * (2 / Vdc)) (Vs .b * (2 / Vdc)) (Vs .c * (2 / Vdc)) + 1) * (1 / 2)

variable {mode : PwmMode} {Vs : Phase → K} {Vdc : K}

theorem modulate_duty (positive : 0 < Vdc) (phase : Phase) :
    modulate mode Vs Vdc phase = .new (duty mode Vs Vdc phase) := by
  rw [modulate, if_neg (not_le.mpr positive)]
  cases phase <;> rfl

/-- The clamp changes nothing that is between its limits. -/
theorem new_value {v : K} (low : 0 ≤ v) (high : v ≤ 1) : (UnsignedPu.new v).value = v :=
  Numbers.clamp_inside low high

theorem new_ne_zero {v : K} (positive : 0 < v) : (UnsignedPu.new v).value ≠ 0 := by
  intro zero
  rcases le_or_gt v 1 with small | large
  · rw [new_value positive.le small] at zero
    exact positive.ne' zero
  · have whole : (UnsignedPu.new v).value = 1 :=
      (if_neg (not_lt.mpr (zero_le_one.trans large.le))).trans (if_pos large)
    rw [whole] at zero
    exact one_ne_zero zero

/-! ## Three values -/

section Extremes
omit [Field K] [IsStrictOrderedRing K]

theorem lowest_le (Vs : Phase → K) (phase : Phase) : lowest (Vs .a) (Vs .b) (Vs .c) ≤ Vs phase := by
  unfold lowest
  cases phase <;> simp

theorem le_highest (Vs : Phase → K) (phase : Phase) : Vs phase ≤ highest (Vs .a) (Vs .b) (Vs .c) := by
  unfold highest
  cases phase <;> simp

theorem lowest_attained (Vs : Phase → K) : ∃ phase, Vs phase = lowest (Vs .a) (Vs .b) (Vs .c) := by
  unfold lowest
  rcases min_choice (min (Vs .a) (Vs .b)) (Vs .c) with outer | outer
  · rcases min_choice (Vs .a) (Vs .b) with inner | inner
    · exact ⟨.a, (outer.trans inner).symm⟩
    · exact ⟨.b, (outer.trans inner).symm⟩
  · exact ⟨.c, outer.symm⟩

theorem highest_attained (Vs : Phase → K) : ∃ phase, Vs phase = highest (Vs .a) (Vs .b) (Vs .c) := by
  unfold highest
  rcases max_choice (max (Vs .a) (Vs .b)) (Vs .c) with outer | outer
  · rcases max_choice (Vs .a) (Vs .b) with inner | inner
    · exact ⟨.a, (outer.trans inner).symm⟩
    · exact ⟨.b, (outer.trans inner).symm⟩
  · exact ⟨.c, outer.symm⟩

end Extremes

theorem lowest_mul {factor : K} (nonneg : 0 ≤ factor) (Va Vb Vc : K) :
    lowest (Va * factor) (Vb * factor) (Vc * factor) = lowest Va Vb Vc * factor := by
  unfold lowest
  rw [min_mul_of_nonneg _ _ nonneg, min_mul_of_nonneg _ _ nonneg]

theorem highest_mul {factor : K} (nonneg : 0 ≤ factor) (Va Vb Vc : K) :
    highest (Va * factor) (Vb * factor) (Vc * factor) = highest Va Vb Vc * factor := by
  unfold highest
  rw [max_mul_of_nonneg _ _ nonneg, max_mul_of_nonneg _ _ nonneg]

/-! ## Offsets -/

/-- The offset keeps the range of the phases between the rails. -/
def Keeps (lo hi offset : K) : Prop := -1 ≤ lo + offset ∧ hi + offset ≤ 1

theorem keeps_centre {lo hi : K} (room : hi - lo ≤ 2) : Keeps lo hi (-(1 / 2) * (hi + lo)) := by
  constructor
  · linarith
  · linarith

theorem keeps_high {lo hi : K} (room : hi - lo ≤ 2) : Keeps lo hi (1 - hi) := by
  constructor
  · linarith
  · linarith

theorem keeps_low {lo hi : K} (room : hi - lo ≤ 2) : Keeps lo hi (-1 - lo) := by
  constructor
  · linarith
  · linarith

omit [IsStrictOrderedRing K] in
/-- A discontinuous mode puts the highest phase on the upper rail or the lowest on the lower one. -/
theorem discontinuous_offset (discontinuous : mode.IsDiscontinuous) (Va Vb Vc : K) :
    mode.offset Va Vb Vc = 1 - highest Va Vb Vc ∨ mode.offset Va Vb Vc = -1 - lowest Va Vb Vc := by
  cases mode with
  | spwm | svpwm => exact discontinuous.elim
  | dpwm1 | dpwm2 | dpwm3 => exact ite_eq_or_eq _ _ _
  | dpwm0 => exact (ite_eq_or_eq _ _ _).symm
  | dpwmmin => exact .inr rfl
  | dpwmmax => exact .inl rfl

/-- Every mode that adds an offset keeps phases that are at most the two rails apart. -/
theorem offset_keeps {Va Vb Vc : K} (zeroSequence : mode ≠ .spwm)
    (room : highest Va Vb Vc - lowest Va Vb Vc ≤ 2) :
    Keeps (lowest Va Vb Vc) (highest Va Vb Vc) (mode.offset Va Vb Vc) := by
  by_cases discontinuous : mode.IsDiscontinuous
  · rcases discontinuous_offset discontinuous Va Vb Vc with high | low
    · rw [high]
      exact keeps_high room
    · rw [low]
      exact keeps_low room
  · cases mode with
    | spwm => exact absurd rfl zeroSequence
    | svpwm => exact keeps_centre room
    | dpwm0 | dpwm1 | dpwm2 | dpwm3 | dpwmmin | dpwmmax => exact absurd trivial discontinuous

/-! ## Voltages between the phases -/

/-- The clamp is not active, and the duties differ as the voltages do. -/
structure KeepsVoltages (mode : PwmMode) (Vs : Phase → K) (Vdc : K) : Prop where
  unclamped : ∀ phase, 0 ≤ duty mode Vs Vdc phase ∧ duty mode Vs Vdc phase ≤ 1
  differences : ∀ i j,
    (modulate mode Vs Vdc i).value - (modulate mode Vs Vdc j).value = (Vs i - Vs j) / Vdc

/-- The lowest and the highest phase, normalized. -/
theorem normalized_range (positive : 0 < Vdc) :
    lowest (Vs .a * (2 / Vdc)) (Vs .b * (2 / Vdc)) (Vs .c * (2 / Vdc)) =
        lowest (Vs .a) (Vs .b) (Vs .c) * (2 / Vdc) ∧
      highest (Vs .a * (2 / Vdc)) (Vs .b * (2 / Vdc)) (Vs .c * (2 / Vdc)) =
        highest (Vs .a) (Vs .b) (Vs .c) * (2 / Vdc) :=
  ⟨lowest_mul (div_nonneg zero_le_two positive.le) _ _ _,
    highest_mul (div_nonneg zero_le_two positive.le) _ _ _⟩

/-- An offset that keeps the normalized phases between the rails keeps the voltages. -/
theorem keeps_voltages (positive : 0 < Vdc)
    (keeps : Keeps (lowest (Vs .a * (2 / Vdc)) (Vs .b * (2 / Vdc)) (Vs .c * (2 / Vdc)))
      (highest (Vs .a * (2 / Vdc)) (Vs .b * (2 / Vdc)) (Vs .c * (2 / Vdc)))
      (mode.offset (Vs .a * (2 / Vdc)) (Vs .b * (2 / Vdc)) (Vs .c * (2 / Vdc)))) :
    KeepsVoltages mode Vs Vdc := by
  have unclamped (phase : Phase) : 0 ≤ duty mode Vs Vdc phase ∧ duty mode Vs Vdc phase ≤ 1 := by
    have low := lowest_le (fun phase => Vs phase * (2 / Vdc)) phase
    have high := le_highest (fun phase => Vs phase * (2 / Vdc)) phase
    obtain ⟨above, below⟩ := keeps
    unfold duty
    constructor
    · linarith
    · linarith
  refine ⟨unclamped, fun i j => ?_⟩
  have value (phase : Phase) : (modulate mode Vs Vdc phase).value = duty mode Vs Vdc phase := by
    rw [modulate_duty positive]
    exact new_value (unclamped phase).1 (unclamped phase).2
  rw [value, value]
  unfold duty
  ring

/-- A discontinuous mode leaves a phase that does not switch. -/
theorem discontinuous_rests (positive : 0 < Vdc) (discontinuous : mode.IsDiscontinuous) :
    ∃ phase, (modulate mode Vs Vdc phase).value = 0 ∨ (modulate mode Vs Vdc phase).value = 1 := by
  rcases discontinuous_offset discontinuous (Vs .a * (2 / Vdc)) (Vs .b * (2 / Vdc))
    (Vs .c * (2 / Vdc)) with high | low
  · obtain ⟨phase, top⟩ := highest_attained fun phase => Vs phase * (2 / Vdc)
    have whole : duty mode Vs Vdc phase = 1 := by
      rw [duty, high, top]
      ring
    refine ⟨phase, .inr ?_⟩
    rw [modulate_duty positive, whole]
    exact new_value zero_le_one le_rfl
  · obtain ⟨phase, bottom⟩ := lowest_attained fun phase => Vs phase * (2 / Vdc)
    have none : duty mode Vs Vdc phase = 0 := by
      rw [duty, low, bottom]
      ring
    refine ⟨phase, .inl ?_⟩
    rw [modulate_duty positive, none]
    exact new_value le_rfl zero_le_one

/-- **Every mode preserves the voltages between the phases**, those with an offset for all voltages
at most the supply voltage apart, the sinusoidal one for voltages within half of it. -/
theorem modes_keep_voltages (positive : 0 < Vdc) :
    (∀ mode ≠ .spwm, highest (Vs .a) (Vs .b) (Vs .c) - lowest (Vs .a) (Vs .b) (Vs .c) ≤ Vdc →
      KeepsVoltages mode Vs Vdc ∧
        (mode ≠ .svpwm → ∃ phase,
          (modulate mode Vs Vdc phase).value = 0 ∨ (modulate mode Vs Vdc phase).value = 1)) ∧
    ((∀ phase, |Vs phase| ≤ Vdc / 2) → KeepsVoltages .spwm Vs Vdc) := by
  obtain ⟨low, high⟩ := @normalized_range _ _ _ _ Vs _ positive
  have half : Vdc / 2 * (2 / Vdc) = 1 := by field_simp
  refine ⟨fun mode zeroSequence room => ⟨?_, fun other => ?_⟩, fun within => ?_⟩
  · refine keeps_voltages positive (offset_keeps zeroSequence ?_)
    calc
      _ = (highest (Vs .a) (Vs .b) (Vs .c) - lowest (Vs .a) (Vs .b) (Vs .c)) * (2 / Vdc) := by
        rw [low, high, sub_mul]
      _ ≤ Vdc * (2 / Vdc) := mul_le_mul_of_nonneg_right room (div_nonneg zero_le_two positive.le)
      _ = 2 := mul_div_cancel₀ 2 positive.ne'
  · refine discontinuous_rests positive ?_
    cases mode with
    | spwm => exact absurd rfl zeroSequence
    | svpwm => exact absurd rfl other
    | dpwm0 | dpwm1 | dpwm2 | dpwm3 | dpwmmin | dpwmmax => trivial
  · have bounds (phase : Phase) : |Vs phase * (2 / Vdc)| ≤ 1 := by
      rw [abs_mul, abs_of_nonneg (div_nonneg zero_le_two positive.le), ← half]
      exact mul_le_mul_of_nonneg_right (within phase) (div_nonneg zero_le_two positive.le)
    obtain ⟨least, bottom⟩ := lowest_attained fun phase => Vs phase * (2 / Vdc)
    obtain ⟨most, top⟩ := highest_attained fun phase => Vs phase * (2 / Vdc)
    apply keeps_voltages positive
    rw [← bottom, ← top, PwmMode.offset, Keeps, add_zero, add_zero]
    exact ⟨(abs_le.mp (bounds least)).1, (abs_le.mp (bounds most)).2⟩

/-- Three phases that span the whole supply. -/
theorem modes_keep_voltages_testing :
    let Vs : Phase → ℚ := perPhase 1 (1 / 2) (-1)
    KeepsVoltages .dpwm1 Vs 2 ∧
      ∃ phase, (modulate .dpwm1 Vs 2 phase).value = 0 ∨ (modulate .dpwm1 Vs 2 phase).value = 1 := by
  intro Vs
  have room : highest (Vs .a) (Vs .b) (Vs .c) - lowest (Vs .a) (Vs .b) (Vs .c) ≤ 2 := by
    norm_num [Vs, perPhase, highest, lowest]
  obtain ⟨keeps, rests⟩ := (modes_keep_voltages two_pos).1 .dpwm1 (by decide) room
  exact ⟨keeps, rests (by decide)⟩

end Emblib.Pwm
