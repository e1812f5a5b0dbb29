import Mathlib.Algebra.Order.Field.Basic
import Mathlib.Algebra.Order.Group.Unbundled.Abs
import Mathlib.Tactic.Ring

/-! `clamping_pi_controller` in exact arithmetic: a proportional-integral controller whose
integral stops growing while the output is at a limit. -/
namespace Emblib.Controller

variable {K : Type} [Field K] [LinearOrder K]

/-- `controller_policy`. -/
inductive Policy where
  | nonInverting
  | inverting

def Policy.error (policy : Policy) (ref meas : K) : K :=
  match policy with
  | .nonInverting => ref - meas
  | .inverting => meas - ref

structure ClampingPiController (K : Type) where
  kp : K
  ki : K
  ts : K
  outI : K
  lowerLimit : K
  upperLimit : K
  out : K
  error : K

/-- The constructor. -/
def ClampingPiController.new (kp ki timestep lowerLimit upperLimit : K) : ClampingPiController K where
  kp := kp
  ki := ki
  ts := timestep
  outI := 0
  lowerLimit := lowerLimit
  upperLimit := upperLimit
  out := 0
  error := 0

def setLowerLimit (controller : ClampingPiController K) (value : K) : ClampingPiController K :=
  { controller with lowerLimit := value }

def setUpperLimit (controller : ClampingPiController K) (value : K) : ClampingPiController K :=
  { controller with upperLimit := value }

def setKp (controller : ClampingPiController K) (value : K) : ClampingPiController K :=
  { controller with kp := value }

def setKi (controller : ClampingPiController K) (value : K) : ClampingPiController K :=
  { controller with ki := value }

def setTimestep (controller : ClampingPiController K) (value : K) : ClampingPiController K :=
  { controller with ts := value }

def push (policy : Policy) (controller : ClampingPiController K) (ref meas : K) :
    ClampingPiController K :=
  let error := policy.error ref meas
  let outP := error * controller.kp
  let outI := (error + controller.error) * (1 / 2) * controller.ki * controller.ts + controller.outI
  let out := outP + outI
  let controller := { controller with error := error }
  if controller.upperLimit < out then
    { controller with
      out := controller.upperLimit
      outI := if outP < controller.upperLimit then controller.upperLimit - outP else controller.outI }
  else if out < controller.lowerLimit then
    { controller with
      out := controller.lowerLimit
      outI := if controller.lowerLimit < outP then controller.lowerLimit - outP else controller.outI }
  else
    { controller with out := out, outI := outI }

def reset (controller : ClampingPiController K) : ClampingPiController K :=
  { controller with outI := 0, error := 0, out := 0 }

/-! ## The output -/

/-- The output before it is clamped. -/
def demand (policy : Policy) (controller : ClampingPiController K) (ref meas : K) : K :=
  let error := policy.error ref meas
  error * controller.kp +
    ((error + controller.error) * (1 / 2) * controller.ki * controller.ts + controller.outI)

/-- What the integral gains at a push with this error, by the trapezoidal rule. -/
def trapezoid (controller : ClampingPiController K) (error : K) : K :=
  (error + controller.error) * (1 / 2) * controller.ki * controller.ts

/-- A value brought into the interval from `-bound` to `bound`. -/
def limited (bound value : K) : K :=
  if bound < value then bound else if value < -bound then -bound else value

theorem push_out (policy : Policy) (controller : ClampingPiController K) (ref meas : K) :
    (push policy controller ref meas).out =
      if controller.upperLimit < demand policy controller ref meas then controller.upperLimit
      else if demand policy controller ref meas < controller.lowerLimit then controller.lowerLimit
      else demand policy controller ref meas := by
  unfold push demand
  simp only
  split
  · rfl
  · split <;> rfl

variable [IsStrictOrderedRing K]

/-- Limits shifted by an offset bound the sum of output and offset. -/
theorem push_offset (policy : Policy) (controller : ClampingPiController K) (bound offset ref meas : K)
    (lower : controller.lowerLimit = -bound - offset) (upper : controller.upperLimit = bound - offset) :
    (push policy controller ref meas).out + offset =
      limited bound (demand policy controller ref meas + offset) := by
  rw [push_out, lower, upper]
  unfold limited
  simp only [sub_lt_iff_lt_add, lt_sub_iff_add_lt]
  split
  · exact sub_add_cancel _ _
  · split
    · exact sub_add_cancel _ _
    · rfl

theorem abs_limited {bound : K} (nonneg : 0 ≤ bound) (value : K) :
    |limited bound value| = min |value| bound := by
  unfold limited
  split
  · rename_i above
    rw [abs_of_nonneg nonneg, min_eq_right (above.le.trans (le_abs_self value))]
  · rename_i notAbove
    split
    · rename_i below
      have far : bound ≤ |value| := (le_neg_of_le_neg below.le).trans (neg_le_abs value)
      rw [abs_neg, abs_of_nonneg nonneg, min_eq_right far]
    · rename_i notBelow
      exact (min_eq_left (abs_le.mpr ⟨not_lt.mp notBelow, not_lt.mp notAbove⟩)).symm

end Emblib.Controller
