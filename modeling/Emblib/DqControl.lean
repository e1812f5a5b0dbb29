import Mathlib.Algebra.Order.Ring.Abs
import Mathlib.Analysis.Real.Sqrt
import Mathlib.Tactic.Linarith
import Emblib.Controller
import Emblib.Library.Numbers

/-! `dq_control`: two current controllers whose output voltages share one circle. The d axis
is served first and the q axis gets what is left of the circle. -/
namespace Emblib.DqControl
open Controller Numbers

variable {K : Type} [Field K] [LinearOrder K]

/-- `vec_dq`. -/
structure VecDq (K : Type) where
  d : K
  q : K

/-- `unsigned_pu`, which clamps what it is constructed from. -/
structure UnsignedPu (K : Type) [Field K] [LinearOrder K] where
  value : K
  nonneg : 0 ≤ value
  atMostOne : value ≤ 1

/-- The constructor. -/
def UnsignedPu.new [IsStrictOrderedRing K] (v : K) : UnsignedPu K where
  value := clamp v 0 1
  nonneg := (clamp_range zero_le_one).1
  atMostOne := (clamp_range zero_le_one).2

/-- Square roots in exact arithmetic. -/
structure SquareRoot (K : Type) [Field K] [LinearOrder K] where
  sqrt : K → K
  nonneg : ∀ {x}, 0 ≤ x → 0 ≤ sqrt x
  square : ∀ {x}, 0 ≤ x → sqrt x * sqrt x = x

/-- `dq_control::operator()`: the voltages, and the two controllers behind. -/
def dqControl (roots : SquareRoot K) (Id Iq : ClampingPiController K) (Imeas Iref Vcomp : VecDq K)
    (Vdc : K)
    (VdLimitFactor : UnsignedPu K) : VecDq K × ClampingPiController K × ClampingPiController K :=
  -- D-axis controller
  let VdAvail := Vdc / roots.sqrt 3 * VdLimitFactor.value
  let Id := setLowerLimit Id (-VdAvail - Vcomp.d)
  let Id := setUpperLimit Id (VdAvail - Vcomp.d)
  let Id := push .nonInverting Id Iref.d Imeas.d
  let Vd := Id.out + Vcomp.d
  -- Q-axis controller
  let VdcOverSqrt3 := Vdc / roots.sqrt 3
  let Iq :=
    if |Vd| < VdcOverSqrt3 then
      let VqAvail := roots.sqrt (VdcOverSqrt3 * VdcOverSqrt3 - Vd * Vd)
      setUpperLimit (setLowerLimit Iq (-VqAvail - Vcomp.q)) (VqAvail - Vcomp.q)
    else
      setUpperLimit (setLowerLimit Iq 0) 0
  let Iq := push .nonInverting Iq Iref.q Imeas.q
  let Vq := Iq.out + Vcomp.q
  (⟨Vd, Vq⟩, Id, Iq)

/-! ## The two voltages -/

/-- What the d axis would put out if nothing limited it. -/
def unlimitedVd (Id : ClampingPiController K) (Imeas Iref Vcomp : VecDq K) : K :=
  demand .nonInverting Id Iref.d Imeas.d + Vcomp.d

variable [IsStrictOrderedRing K] {roots : SquareRoot K} {Id Iq : ClampingPiController K}
  {Imeas Iref Vcomp : VecDq K} {Vdc : K} {factor : UnsignedPu K}

theorem radius_nonneg (nonneg : 0 ≤ Vdc) : 0 ≤ Vdc / roots.sqrt 3 :=
  div_nonneg nonneg (roots.nonneg zero_le_three)

theorem dqControl_d : (dqControl roots Id Iq Imeas Iref Vcomp Vdc factor).1.d =
    limited (Vdc / roots.sqrt 3 * factor.value) (unlimitedVd Id Imeas Iref Vcomp) :=
  push_offset _ _ _ _ _ _ rfl rfl

theorem abs_d (nonneg : 0 ≤ Vdc) : |(dqControl roots Id Iq Imeas Iref Vcomp Vdc factor).1.d| =
    min |unlimitedVd Id Imeas Iref Vcomp| (Vdc / roots.sqrt 3 * factor.value) := by
  rw [dqControl_d, abs_limited (mul_nonneg (radius_nonneg nonneg) factor.nonneg)]

/-- The d axis alone stays inside of the circle. -/
def Inside (roots : SquareRoot K) (Id : ClampingPiController K) (Imeas Iref Vcomp : VecDq K) (Vdc : K)
    (factor : UnsignedPu K) : Prop :=
  |unlimitedVd Id Imeas Iref Vcomp| < Vdc / roots.sqrt 3 ∨ 0 < Vdc / roots.sqrt 3 ∧ factor.value < 1

theorem abs_d_lt (nonneg : 0 ≤ Vdc) :
    |(dqControl roots Id Iq Imeas Iref Vcomp Vdc factor).1.d| < Vdc / roots.sqrt 3 ↔
      Inside roots Id Imeas Iref Vcomp Vdc factor := by
  rw [abs_d nonneg, min_lt_iff]
  refine or_congr_right ⟨fun below => ?_, fun ⟨positive, below⟩ => mul_lt_of_lt_one_right positive below⟩
  have positive := (mul_nonneg (radius_nonneg nonneg) factor.nonneg).trans_lt below
  exact ⟨positive, (mul_lt_iff_lt_one_right positive).mp below⟩

/-- Where the d axis leaves room, the q axis stays in it. -/
theorem inside_circle (inside : |(dqControl roots Id Iq Imeas Iref Vcomp Vdc factor).1.d| < Vdc / roots.sqrt 3) :
    let out := (dqControl roots Id Iq Imeas Iref Vcomp Vdc factor).1
    out.d ^ 2 + out.q ^ 2 ≤ (Vdc / roots.sqrt 3) ^ 2 := by
  intro out
  let room := Vdc / roots.sqrt 3 * (Vdc / roots.sqrt 3) - out.d * out.d
  have nonneg : 0 ≤ room := sub_nonneg.mpr (abs_le_iff_mul_self_le.mp (inside.le.trans (le_abs_self _)))
  have limit : ∃ wanted, out.q = limited (roots.sqrt room) wanted := by
    refine ⟨_, push_offset .nonInverting _ (roots.sqrt room) Vcomp.q Iref.q Imeas.q ?_ ?_⟩
    · exact congrArg ClampingPiController.lowerLimit (if_pos inside)
    · exact congrArg ClampingPiController.upperLimit (if_pos inside)
  obtain ⟨wanted, limit⟩ := limit
  have bound : |out.q| ≤ |roots.sqrt room| := by
    rw [limit, abs_limited (roots.nonneg nonneg), abs_of_nonneg (roots.nonneg nonneg)]
    exact min_le_right _ _
  have square : out.q * out.q ≤ room := (roots.square nonneg) ▸ abs_le_iff_mul_self_le.mp bound
  rw [sq, sq, sq]
  linarith

/-- Where it leaves none, the q axis is at its compensation voltage, whatever that is. -/
theorem outside_q (outside : ¬|(dqControl roots Id Iq Imeas Iref Vcomp Vdc factor).1.d| < Vdc / roots.sqrt 3) :
    (dqControl roots Id Iq Imeas Iref Vcomp Vdc factor).1.q = Vcomp.q := by
  have limit : ∃ wanted, (dqControl roots Id Iq Imeas Iref Vcomp Vdc factor).2.2.out + 0 = limited 0 wanted := by
    refine ⟨_, push_offset .nonInverting _ 0 0 Iref.q Imeas.q ?_ ?_⟩
    · rw [neg_zero, sub_zero]
      exact congrArg ClampingPiController.lowerLimit (if_neg outside)
    · rw [sub_zero]
      exact congrArg ClampingPiController.upperLimit (if_neg outside)
  obtain ⟨wanted, limit⟩ := limit
  have zero := (abs_limited le_rfl wanted).trans (min_eq_right (abs_nonneg wanted))
  rw [← limit, add_zero, abs_eq_zero] at zero
  exact (congrArg (· + Vcomp.q) zero).trans (zero_add _)

/-! ## The circle -/

/-- The voltages are inside of the circle, and the d voltage has its own limit. -/
def WithinCircle (roots : SquareRoot K) (Vdc : K) (factor : UnsignedPu K) (out : VecDq K) : Prop :=
  out.d ^ 2 + out.q ^ 2 ≤ (Vdc / roots.sqrt 3) ^ 2 ∧ |out.d| ≤ Vdc / roots.sqrt 3 * factor.value

theorem outside_circle (nonneg : 0 ≤ Vdc) (outside : ¬Inside roots Id Imeas Iref Vcomp Vdc factor)
    (within : WithinCircle roots Vdc factor (dqControl roots Id Iq Imeas Iref Vcomp Vdc factor).1) :
    Vcomp.q = 0 := by
  have far : ¬|(dqControl roots Id Iq Imeas Iref Vcomp Vdc factor).1.d| < Vdc / roots.sqrt 3 :=
    mt (abs_d_lt nonneg).mp outside
  obtain ⟨circle, _⟩ := within
  rw [outside_q far] at circle
  have edge : (Vdc / roots.sqrt 3) ^ 2 ≤ (dqControl roots Id Iq Imeas Iref Vcomp Vdc factor).1.d ^ 2 := by
    rw [← sq_abs (dqControl roots Id Iq Imeas Iref Vcomp Vdc factor).1.d]
    exact pow_le_pow_left₀ (radius_nonneg nonneg) (not_lt.mp far) 2
  exact pow_eq_zero_iff two_ne_zero |>.mp (le_antisymm (by linarith) (sq_nonneg _))

/-- **The voltages stay inside of the circle unless the d axis fills it.** Where the d axis
fills the circle, they do so only without a compensation voltage on the q axis, because
that voltage is added to a q output that was limited to zero without it. -/
theorem voltages_within_circle_iff (nonneg : 0 ≤ Vdc) :
    WithinCircle roots Vdc factor (dqControl roots Id Iq Imeas Iref Vcomp Vdc factor).1 ↔
      Vcomp.q = 0 ∨ Inside roots Id Imeas Iref Vcomp Vdc factor := by
  have limit : |(dqControl roots Id Iq Imeas Iref Vcomp Vdc factor).1.d| ≤ Vdc / roots.sqrt 3 * factor.value :=
    (abs_d nonneg).trans_le (min_le_right _ _)
  by_cases inside : Inside roots Id Imeas Iref Vcomp Vdc factor
  · have circle : (dqControl roots Id Iq Imeas Iref Vcomp Vdc factor).1.d ^ 2 + _ ≤ _ :=
      inside_circle ((abs_d_lt nonneg).mpr inside)
    exact ⟨fun _ => .inr inside, fun _ => ⟨circle, limit⟩⟩
  · have far : ¬|(dqControl roots Id Iq Imeas Iref Vcomp Vdc factor).1.d| < Vdc / roots.sqrt 3 :=
      mt (abs_d_lt nonneg).mp inside
    refine ⟨fun within => .inl (outside_circle nonneg inside within), fun uncompensated => ⟨?_, limit⟩⟩
    have zero := uncompensated.resolve_right inside
    have radius := limit.trans (mul_le_of_le_one_right (radius_nonneg nonneg) factor.atMostOne)
    rw [outside_q far, zero, zero_pow two_ne_zero, add_zero, ← sq_abs]
    exact pow_le_pow_left₀ (abs_nonneg _) radius 2

/-! ## A full d axis -/

noncomputable def realRoots : SquareRoot ℝ where
  sqrt := Real.sqrt
  nonneg := fun _ => Real.sqrt_nonneg _
  square := Real.mul_self_sqrt

/-- A proportional controller of gain one, as it is after construction. -/
noncomputable def testingController : ClampingPiController ℝ := .new 1 0 1 0 0

noncomputable def testingFactor : UnsignedPu ℝ := .new 1

theorem testing_unlimited (Imeas Iref Vcomp : VecDq ℝ) :
    unlimitedVd testingController Imeas Iref Vcomp = Iref.d - Imeas.d + Vcomp.d := by
  simp [unlimitedVd, demand, testingController, ClampingPiController.new, Policy.error]

theorem testing_radius : 3 / realRoots.sqrt 3 = Real.sqrt 3 := Real.div_sqrt

theorem voltages_within_circle_iff_testing :
    WithinCircle realRoots 3 testingFactor
      (dqControl realRoots testingController testingController ⟨0, 0⟩ ⟨1, 9⟩ ⟨0, 5⟩ 3 testingFactor).1 := by
  refine (voltages_within_circle_iff zero_le_three).mpr (.inr (.inl ?_))
  rw [testing_unlimited, testing_radius]
  norm_num [Real.lt_sqrt]

/-- A d demand of ten volts on a circle of less than two: the compensation voltage of one
volt on the q axis leaves the circle. -/
theorem full_d_axis_leaves_circle :
    ¬WithinCircle realRoots 3 testingFactor
      (dqControl realRoots testingController testingController ⟨0, 0⟩ ⟨10, 0⟩ ⟨0, 1⟩ 3 testingFactor).1 := by
  refine fun within => one_ne_zero (outside_circle zero_le_three ?_ within)
  rintro (below | ⟨_, below⟩)
  · rw [testing_unlimited, testing_radius] at below
    norm_num [Real.lt_sqrt] at below
  · norm_num [testingFactor, UnsignedPu.new, clamp] at below

end Emblib.DqControl
