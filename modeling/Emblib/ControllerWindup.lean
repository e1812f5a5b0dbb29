import Mathlib.Algebra.Order.Ring.Abs
import Mathlib.Tactic.Linarith
import Mathlib.Tactic.NormNum
import Emblib.Controller

/-! The clamping controller does not wind up. Whatever sets the output sets the integral to match
it, unless the proportional part alone is at a limit; then the integral is left alone. So the
integral never exceeds what the limits and the proportional part account for, and the next push
starts from the output that was given. -/
namespace Emblib.ControllerWindup
open Controller

variable {K : Type} [Field K] [LinearOrder K]

/-! ## Runs of a controller -/

inductive Operation (K : Type) where
  | push (ref meas : K)
  | reset
  | setLowerLimit (value : K)
  | setUpperLimit (value : K)
  | setKp (value : K)
  | setKi (value : K)
  | setTimestep (value : K)

/-- The operation changes a limit, a gain or the timestep. -/
def Operation.IsSetting : Operation K → Prop
  | .push _ _ => False
  | .reset => False
  | _ => True

def apply (policy : Policy) (controller : ClampingPiController K) : Operation K → ClampingPiController K
  | .push ref meas => push policy controller ref meas
  | .reset => reset controller
  | .setLowerLimit value => setLowerLimit controller value
  | .setUpperLimit value => setUpperLimit controller value
  | .setKp value => setKp controller value
  | .setKi value => setKi controller value
  | .setTimestep value => setTimestep controller value

/-- The controller after the operations. -/
def applyAll (policy : Policy) (controller : ClampingPiController K) (operations : List (Operation K)) :
    ClampingPiController K :=
  operations.foldl (apply policy) controller

/-- What holds of every push, before it, in the run of these operations. -/
def AtEveryPush (policy : Policy) (holds : ClampingPiController K → K → K → Prop) :
    ClampingPiController K → List (Operation K) → Prop
  | _, [] => True
  | controller, .push ref meas :: later =>
    holds controller ref meas ∧ AtEveryPush policy holds (push policy controller ref meas) later
  | controller, operation :: later => AtEveryPush policy holds (apply policy controller operation) later

/-- What a push may conclude from an invariant of the run, if it keeps it. -/
theorem atEveryPush_invariant {policy : Policy} (invariant : ClampingPiController K → Prop)
    {given concluded : ClampingPiController K → K → K → Prop}
    (pushed : ∀ controller ref meas, invariant controller → given controller ref meas →
      concluded controller ref meas ∧ invariant (push policy controller ref meas))
    (cleared : ∀ controller, invariant (reset controller))
    (set : ∀ controller (operation : Operation K), operation.IsSetting → invariant controller →
      invariant (apply policy controller operation))
    {controller : ClampingPiController K} (initial : invariant controller)
    {operations : List (Operation K)}
    (all : AtEveryPush policy given controller operations) :
    AtEveryPush policy concluded controller operations := by
  induction operations generalizing controller with
  | nil => trivial
  | cons operation later ih =>
    cases operation with
    | push ref meas =>
      obtain ⟨holds, kept⟩ := pushed controller ref meas initial all.1
      exact ⟨holds, ih kept all.2⟩
    | reset => exact ih (cleared controller) all
    | setLowerLimit value => exact ih (set controller (.setLowerLimit value) trivial initial) all
    | setUpperLimit value => exact ih (set controller (.setUpperLimit value) trivial initial) all
    | setKp value => exact ih (set controller (.setKp value) trivial initial) all
    | setKi value => exact ih (set controller (.setKi value) trivial initial) all
    | setTimestep value => exact ih (set controller (.setTimestep value) trivial initial) all

/-! ## One push -/

/-- The proportional part of a push. -/
def outP (policy : Policy) (controller : ClampingPiController K) (ref meas : K) : K :=
  policy.error ref meas * controller.kp

/-- The five branches of `push`, with the output and the integral that they leave. -/
inductive Pushed (policy : Policy) (controller : ClampingPiController K) (ref meas : K) :
    K → K → Prop where
  | atUpper (above : controller.upperLimit < demand policy controller ref meas)
      (room : outP policy controller ref meas < controller.upperLimit) :
      Pushed policy controller ref meas controller.upperLimit
        (controller.upperLimit - outP policy controller ref meas)
  | atUpperFrozen (above : controller.upperLimit < demand policy controller ref meas)
      (full : controller.upperLimit ≤ outP policy controller ref meas) :
      Pushed policy controller ref meas controller.upperLimit controller.outI
  | atLower (notAbove : demand policy controller ref meas ≤ controller.upperLimit)
      (below : demand policy controller ref meas < controller.lowerLimit)
      (room : controller.lowerLimit < outP policy controller ref meas) :
      Pushed policy controller ref meas controller.lowerLimit
        (controller.lowerLimit - outP policy controller ref meas)
  | atLowerFrozen (notAbove : demand policy controller ref meas ≤ controller.upperLimit)
      (below : demand policy controller ref meas < controller.lowerLimit)
      (full : outP policy controller ref meas ≤ controller.lowerLimit) :
      Pushed policy controller ref meas controller.lowerLimit controller.outI
  | inside (notAbove : demand policy controller ref meas ≤ controller.upperLimit)
      (notBelow : controller.lowerLimit ≤ demand policy controller ref meas) :
      Pushed policy controller ref meas (demand policy controller ref meas)
        (demand policy controller ref meas - outP policy controller ref meas)

theorem push_pushed (policy : Policy) (controller : ClampingPiController K) (ref meas : K) :
    Pushed policy controller ref meas (push policy controller ref meas).out
      (push policy controller ref meas).outI := by
  unfold push
  dsimp only
  split
  case isTrue above =>
    dsimp only
    split
    case isTrue room => exact .atUpper above room
    case isFalse full => exact .atUpperFrozen above (not_lt.mp full)
  case isFalse notAbove =>
    split
    case isTrue below =>
      dsimp only
      split
      case isTrue room => exact .atLower (not_lt.mp notAbove) below room
      case isFalse full => exact .atLowerFrozen (not_lt.mp notAbove) below (not_lt.mp full)
    case isFalse notBelow =>
      have free : Pushed policy controller ref meas _ _ :=
        .inside (not_lt.mp notAbove) (not_lt.mp notBelow)
      rwa [demand, outP, add_sub_cancel_left] at free

theorem push_error (policy : Policy) (controller : ClampingPiController K) (ref meas : K) :
    (push policy controller ref meas).error = policy.error ref meas := by
  unfold push
  dsimp only
  split
  · rfl
  · split <;> rfl

section Branches
variable {policy : Policy} {controller : ClampingPiController K} {ref meas out outI : K}

/-- Limits that are in order hold the output. -/
theorem pushed_range (pushed : Pushed policy controller ref meas out outI)
    (ordered : controller.lowerLimit ≤ controller.upperLimit) :
    controller.lowerLimit ≤ out ∧ out ≤ controller.upperLimit := by
  cases pushed with
  | atUpper | atUpperFrozen => exact ⟨ordered, le_refl _⟩
  | atLower | atLowerFrozen => exact ⟨le_refl _, ordered⟩
  | inside notAbove notBelow => exact ⟨notBelow, notAbove⟩

/-- The integral accounts for the output unless the proportional part is at a limit. -/
theorem pushed_consistent (pushed : Pushed policy controller ref meas out outI)
    (low : controller.lowerLimit < outP policy controller ref meas)
    (high : outP policy controller ref meas < controller.upperLimit) :
    out = outP policy controller ref meas + outI := by
  cases pushed with
  | atUpper | atLower | inside => exact (add_sub_cancel _ _).symm
  | atUpperFrozen _ full => exact absurd high (not_lt.mpr full)
  | atLowerFrozen _ _ full => exact absurd low (not_lt.mpr full)

/-- A demand below an output that the lower limit allows leads below it. -/
theorem pushed_falls {before : K} (pushed : Pushed policy controller ref meas out outI)
    (falls : demand policy controller ref meas < before) (room : controller.lowerLimit < before) :
    out < before := by
  cases pushed with
  | atUpper above | atUpperFrozen above => exact above.trans falls
  | atLower | atLowerFrozen => exact room
  | inside => exact falls

/-- A demand above an output that the upper limit allows leads above it. -/
theorem pushed_rises {before : K} (pushed : Pushed policy controller ref meas out outI)
    (rises : before < demand policy controller ref meas) (room : before < controller.upperLimit) :
    before < out := by
  cases pushed with
  | atUpper | atUpperFrozen => exact room
  | atLower _ below | atLowerFrozen _ below => exact rises.trans below
  | inside => exact rises

end Branches

/-! ## The next push -/

/-- By how much the demand of a push differs from the output before it: what the proportional part
changes and what the integral gains. -/
def change (policy : Policy) (controller next : ClampingPiController K) (ref meas ref' meas' : K) : K :=
  outP policy next ref' meas' - outP policy controller ref meas + trapezoid next (policy.error ref' meas')

theorem settings_keep (policy : Policy) {settings : List (Operation K)}
    (only : ∀ setting ∈ settings, setting.IsSetting) (controller : ClampingPiController K) :
    (applyAll policy controller settings).error = controller.error ∧
      (applyAll policy controller settings).outI = controller.outI := by
  induction settings generalizing controller with
  | nil => exact ⟨rfl, rfl⟩
  | cons setting settings ih =>
    obtain ⟨first, rest⟩ := List.forall_mem_cons.mp only
    obtain ⟨error, outI⟩ := ih rest (apply policy controller setting)
    rw [applyAll, List.foldl_cons]
    cases setting with
    | push | reset => exact first.elim
    | setLowerLimit | setUpperLimit | setKp | setKi | setTimestep => exact ⟨error, outI⟩

/-- After a push that the integral accounts for, the next demand starts from its output. -/
theorem demand_next {policy : Policy} {controller next : ClampingPiController K}
    {ref meas : K} (ref' meas' : K)
    (consistent : (push policy controller ref meas).out =
      outP policy controller ref meas + next.outI) :
    demand policy next ref' meas' =
      (push policy controller ref meas).out + change policy controller next ref meas ref' meas' := by
  unfold demand change trapezoid
  rw [consistent, outP, outP]
  ring

/-- The output of the next push leaves the output before it in the direction of the change, as far as
the limits of the next push let it. -/
def Responds (policy : Policy) (controller next : ClampingPiController K)
    (ref meas ref' meas' : K) : Prop :=
  let before := (push policy controller ref meas).out
  let after := (push policy next ref' meas').out
  (change policy controller next ref meas ref' meas' < 0 → next.lowerLimit < before → after < before) ∧
    (0 < change policy controller next ref meas ref' meas' → before < next.upperLimit → before < after)

section Ordered
variable [IsStrictOrderedRing K] {policy : Policy} {controller next : ClampingPiController K}
  {ref meas ref' meas' : K}

theorem responds
    (consistent : (push policy controller ref meas).out =
      outP policy controller ref meas + next.outI) :
    Responds policy controller next ref meas ref' meas' := by
  have starts := demand_next ref' meas' consistent
  have pushed := push_pushed policy next ref' meas'
  refine ⟨fun falls room => pushed_falls pushed ?_ room, fun rises room => pushed_rises pushed ?_ room⟩
  · rw [starts]
    exact add_lt_of_neg_right _ falls
  · rw [starts]
    exact lt_add_of_pos_right _ rises

/-- A positive error that is reversed changes the demand downwards. -/
theorem change_falls (error : next.error = policy.error ref meas) (same : next.kp = controller.kp)
    (gain : 0 < controller.kp) (integrates : 0 ≤ next.ki * next.ts)
    (positive : 0 < policy.error ref meas) (reversed : policy.error ref' meas' ≤ -policy.error ref meas) :
    change policy controller next ref meas ref' meas' < 0 := by
  have proportional : (policy.error ref' meas' - policy.error ref meas) * controller.kp < 0 :=
    mul_neg_of_neg_of_pos (by linarith) gain
  have integral : (policy.error ref' meas' + policy.error ref meas) * (next.ki * next.ts) ≤ 0 :=
    mul_nonpos_of_nonpos_of_nonneg (by linarith) integrates
  unfold change outP trapezoid
  rw [same, error]
  linarith

/-- A negative error that is reversed changes it upwards. -/
theorem change_rises (error : next.error = policy.error ref meas) (same : next.kp = controller.kp)
    (gain : 0 < controller.kp) (integrates : 0 ≤ next.ki * next.ts)
    (negative : policy.error ref meas < 0) (reversed : -policy.error ref meas ≤ policy.error ref' meas') :
    0 < change policy controller next ref meas ref' meas' := by
  have proportional : 0 < (policy.error ref' meas' - policy.error ref meas) * controller.kp :=
    mul_pos (by linarith) gain
  have integral : 0 ≤ (policy.error ref' meas' + policy.error ref meas) * (next.ki * next.ts) :=
    mul_nonneg (by linarith) integrates
  unfold change outP trapezoid
  rw [same, error]
  linarith

end Ordered

/-! ## Every run -/

/-- A push gives an output within the limits. Unless its proportional part is at a limit, the
integral accounts for that output; then the next push moves the output, whatever was set in
between, and a reversed error moves it the other way. -/
structure Unwound (policy : Policy) (controller : ClampingPiController K) (ref meas : K) : Prop where
  range : controller.lowerLimit ≤ (push policy controller ref meas).out ∧
    (push policy controller ref meas).out ≤ controller.upperLimit
  consistent : controller.lowerLimit < outP policy controller ref meas →
    outP policy controller ref meas < controller.upperLimit →
    (push policy controller ref meas).out =
      outP policy controller ref meas + (push policy controller ref meas).outI
  responds : controller.lowerLimit < outP policy controller ref meas →
    outP policy controller ref meas < controller.upperLimit →
    ∀ settings : List (Operation K), (∀ setting ∈ settings, setting.IsSetting) → ∀ ref' meas',
      Responds policy controller (applyAll policy (push policy controller ref meas) settings)
        ref meas ref' meas'
  reverses : controller.lowerLimit < outP policy controller ref meas →
    outP policy controller ref meas < controller.upperLimit →
    ∀ settings : List (Operation K), (∀ setting ∈ settings, setting.IsSetting) → ∀ ref' meas',
      let before := (push policy controller ref meas).out
      let next := applyAll policy (push policy controller ref meas) settings
      let after := (push policy next ref' meas').out
      next.kp = controller.kp → 0 < controller.kp → 0 ≤ next.ki * next.ts →
        (0 < policy.error ref meas → policy.error ref' meas' ≤ -policy.error ref meas →
          next.lowerLimit < before → after < before) ∧
        (policy.error ref meas < 0 → -policy.error ref meas ≤ policy.error ref' meas' →
          before < next.upperLimit → before < after)

variable [IsStrictOrderedRing K] {policy : Policy} {controller : ClampingPiController K}
  {ref meas out outI : K}

theorem push_unwound (ordered : controller.lowerLimit ≤ controller.upperLimit) :
    Unwound policy controller ref meas := by
  have pushed := push_pushed policy controller ref meas
  have next (low : controller.lowerLimit < outP policy controller ref meas)
      (high : outP policy controller ref meas < controller.upperLimit) (settings : List (Operation K))
      (only : ∀ setting ∈ settings, setting.IsSetting) (ref' meas' : K) :
      Responds policy controller (applyAll policy (push policy controller ref meas) settings)
        ref meas ref' meas' := by
    apply responds
    rw [(settings_keep policy only _).2]
    exact pushed_consistent pushed low high
  refine ⟨pushed_range pushed ordered, pushed_consistent pushed, next, ?_⟩
  intro low high settings only ref' meas' before next' after same gain integrates
  obtain ⟨falls, rises⟩ := next low high settings only ref' meas'
  have error : next'.error = policy.error ref meas :=
    (settings_keep policy only _).1.trans (push_error policy controller ref meas)
  exact ⟨fun positive reversed => falls (change_falls error same gain integrates positive reversed),
    fun negative reversed => rises (change_rises error same gain integrates negative reversed)⟩

/-- What bounds the limits and the proportional part of a push. -/
def Bounded (policy : Policy) (U P : K) (controller : ClampingPiController K) (ref meas : K) : Prop :=
  |controller.lowerLimit| ≤ U ∧ |controller.upperLimit| ≤ U ∧ |outP policy controller ref meas| ≤ P

/-- A push keeps the integral bounded; before the first one it is zero. -/
theorem pushed_bound {U P : K} (pushed : Pushed policy controller ref meas out outI)
    (bounded : Bounded policy U P controller ref meas)
    (before : controller.outI = 0 ∨ |controller.outI| ≤ U + P) :
    |outI| ≤ U + P := by
  obtain ⟨lower, upper, proportional⟩ := bounded
  cases pushed with
  | atUpper => exact (abs_sub _ _).trans (add_le_add upper proportional)
  | atLower => exact (abs_sub _ _).trans (add_le_add lower proportional)
  | atUpperFrozen | atLowerFrozen =>
    rcases before with zero | small
    · rw [zero, abs_zero]
      exact add_nonneg ((abs_nonneg _).trans lower) ((abs_nonneg _).trans proportional)
    · exact small
  | inside notAbove notBelow =>
    have demanded : |demand policy controller ref meas| ≤ U :=
      abs_le.mpr ⟨(abs_le.mp lower).1.trans notBelow, notAbove.trans (abs_le.mp upper).2⟩
    exact (abs_sub _ _).trans (add_le_add demanded proportional)

/-- **The controller does not wind up**, in any run of any length from its construction, as long as
the limits are in order at every push. -/
theorem runs_unwound {policy : Policy} {kp ki timestep lowerLimit upperLimit : K}
    {operations : List (Operation K)}
    (ordered : AtEveryPush policy (fun controller _ _ => controller.lowerLimit ≤ controller.upperLimit)
      (.new kp ki timestep lowerLimit upperLimit) operations) :
    AtEveryPush policy (Unwound policy) (.new kp ki timestep lowerLimit upperLimit) operations ∧
      ∀ U P,
        AtEveryPush policy (Bounded policy U P) (.new kp ki timestep lowerLimit upperLimit)
          operations →
        AtEveryPush policy (fun controller ref meas => |(push policy controller ref meas).outI| ≤ U + P)
          (.new kp ki timestep lowerLimit upperLimit) operations := by
  refine ⟨?_, fun U P bounded => ?_⟩
  · refine atEveryPush_invariant (fun _ => True) ?_ (fun _ => trivial) (fun _ _ _ _ => trivial)
      trivial ordered
    intro controller ref meas _ inOrder
    exact ⟨push_unwound inOrder, trivial⟩
  · refine atEveryPush_invariant
      (fun controller => controller.outI = 0 ∨ |controller.outI| ≤ U + P) ?_ (fun _ => .inl rfl)
      ?_ (.inl rfl) bounded
    · intro controller ref meas before bounds
      have small := pushed_bound (push_pushed policy controller ref meas) bounds before
      exact ⟨small, .inr small⟩
    · intro controller setting only before
      cases setting with
      | push | reset => exact only.elim
      | setLowerLimit | setUpperLimit | setKp | setKi | setTimestep => exact before

/-- Two pushes at the upper limit, which is lowered in between, and one with the error reversed. -/
theorem runs_unwound_testing :
    let operations : List (Operation ℚ) := [.push 5 4, .setUpperLimit 2, .push 5 4, .push 4 5]
    let controller : ClampingPiController ℚ := .new 1 10 1 (-3) 3
    AtEveryPush .nonInverting (Unwound .nonInverting) controller operations ∧
      AtEveryPush .nonInverting
        (fun controller ref meas => |(push .nonInverting controller ref meas).outI| ≤ 3 + 1)
        controller operations := by
  intro operations controller
  have ordered : AtEveryPush .nonInverting
      (fun controller _ _ => controller.lowerLimit ≤ controller.upperLimit)
      controller operations := by
    refine ⟨?_, ?_, ?_, trivial⟩ <;>
      norm_num [controller, apply, push, setUpperLimit, Policy.error, ClampingPiController.new]
  have bounded : AtEveryPush .nonInverting (Bounded .nonInverting 3 1) controller operations := by
    refine ⟨?_, ?_, ?_, trivial⟩ <;>
      norm_num [controller, Bounded, outP, apply, push, setUpperLimit, Policy.error,
        ClampingPiController.new, abs_le]
  obtain ⟨unwound, bounds⟩ := runs_unwound ordered
  exact ⟨unwound, bounds 3 1 bounded⟩

end Emblib.ControllerWindup
