import Emblib.ControllerWindup
import Emblib.Library.Numbers

/-! `backcalc_pi_controller` takes back from the integral what the limits have taken from the output. The
integral stays within the limits, widened by the largest proportional part and by what one push adds
divided by the anti-windup gain; so the time to leave a limit has a bound that does not depend on
how long the output has been there. -/
namespace Emblib.BackcalcWindup
open Controller ControllerWindup
open Numbers (clamp clamp_range)

variable {K : Type} [Field K] [LinearOrder K]

structure BackcalcPiController (K : Type) where
  kp : K
  ki : K
  ts : K
  outI : K
  lowerLimit : K
  upperLimit : K
  out : K
  kc : K

/-- The constructor. -/
def BackcalcPiController.new (kp ki timestep kc lowerLimit upperLimit : K) : BackcalcPiController K where
  kp := kp
  ki := ki
  ts := timestep
  outI := 0
  lowerLimit := lowerLimit
  upperLimit := upperLimit
  out := 0
  kc := kc

/-- `push`, where `highest` is `std::numeric_limits<value_type>::max()`. -/
def push (policy : Policy) (highest : K) (controller : BackcalcPiController K) (ref meas : K) :
    BackcalcPiController K :=
  let error := policy.error ref meas
  let unlimited := clamp (error * controller.kp + controller.outI) (-highest) highest
  let out := clamp unlimited controller.lowerLimit controller.upperLimit
  let outI := controller.outI + controller.ki * controller.ts * error - controller.kc * (unlimited - out)
  { controller with out := out, outI := clamp outI (-highest) highest }

def reset (controller : BackcalcPiController K) : BackcalcPiController K :=
  { controller with outI := 0, out := 0 }

/-- The setters are those of `pi_controller_base`. -/
def apply (policy : Policy) (highest : K) (controller : BackcalcPiController K) :
    Operation K → BackcalcPiController K
  | .push ref meas => push policy highest controller ref meas
  | .reset => reset controller
  | .setLowerLimit value => { controller with lowerLimit := value }
  | .setUpperLimit value => { controller with upperLimit := value }
  | .setKp value => { controller with kp := value }
  | .setKi value => { controller with ki := value }
  | .setTimestep value => { controller with ts := value }

/-- The controller after the operations. -/
def applyAll (policy : Policy) (highest : K) (controller : BackcalcPiController K)
    (operations : List (Operation K)) : BackcalcPiController K :=
  operations.foldl (apply policy highest) controller

/-- Bounds on what a controller is given: its limits, the proportional part, and what the integral gains. -/
structure Bounds (K : Type) [Field K] [LinearOrder K] where
  lowest : K
  most : K
  share : K
  gain : K
  lowestNonpos : lowest ≤ 0
  mostNonneg : 0 ≤ most
  shareNonneg : 0 ≤ share
  gainNonneg : 0 ≤ gain

/-- What the integral may exceed the limits by. -/
def Bounds.slack (bounds : Bounds K) (kc : K) : K := bounds.share + bounds.gain / kc

variable {policy : Policy} {highest epsilon kc : K} {bounds : Bounds K} {controller : BackcalcPiController K}
  {ref meas : K}

variable [IsStrictOrderedRing K]

/-- The output before it is brought between the limits. -/
def unlimited (policy : Policy) (highest : K) (controller : BackcalcPiController K) (ref meas : K) : K :=
  clamp (policy.error ref meas * controller.kp + controller.outI) (-highest) highest

omit [IsStrictOrderedRing K] in
theorem push_out : (push policy highest controller ref meas).out =
    clamp (unlimited policy highest controller ref meas) controller.lowerLimit controller.upperLimit := rfl

/-- The controller with all its values negated. -/
def mirror (controller : BackcalcPiController K) : BackcalcPiController K :=
  { controller with
    outI := -controller.outI
    lowerLimit := -controller.upperLimit
    upperLimit := -controller.lowerLimit
    out := -controller.out }

/-- The bounds of the negated controller. -/
def Bounds.mirror (bounds : Bounds K) : Bounds K where
  lowest := -bounds.most
  most := -bounds.lowest
  share := bounds.share
  gain := bounds.gain
  lowestNonpos := neg_nonpos.mpr bounds.mostNonneg
  mostNonneg := neg_nonneg.mpr bounds.lowestNonpos
  shareNonneg := bounds.shareNonneg
  gainNonneg := bounds.gainNonneg

/-- The integral of a controller with this anti-windup gain is within the widened limits. -/
structure Bounded (bounds : Bounds K) (kc : K) (controller : BackcalcPiController K) : Prop where
  gain : controller.kc = kc
  lower : bounds.lowest - bounds.slack kc ≤ controller.outI
  upper : controller.outI ≤ bounds.most + bounds.slack kc

end Emblib.BackcalcWindup
