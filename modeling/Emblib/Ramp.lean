import Mathlib.Algebra.Order.Floor.Ring
import Mathlib.Algebra.Order.Group.MinMax
import Mathlib.Algebra.Order.Floor.Semiring
import Mathlib.Order.Interval.Set.UnorderedInterval
import Mathlib.Data.Rat.Floor
import Mathlib.Tactic.Linarith
import Mathlib.Tactic.NormNum

/-! The ramp generator walks its output to a target in steps of one size. One comparison decides
the direction, and a minimum or a maximum keeps the last step from going past the target. The
distance that is left is the measure: an update takes a step off it, down to zero, and zero stays. -/
namespace Emblib.Ramp

variable {K : Type} [Field K] [LinearOrder K]

/-! ## The generator -/

/-- The fields of `ramp_generator`. What `set_slope` asserts of the timestep and of the slope is kept
with them, and so is the step that it computes. -/
structure RampGenerator (K : Type) [Field K] [LinearOrder K] where
  ts : K
  slope : K
  step : K
  target : K
  initOutput : K
  output : K
  ts_pos : 0 < ts
  slope_pos : 0 < slope
  step_eq : step = ts * slope

/-- The constructor: `set_slope`, then `reset`. -/
def RampGenerator.new (timestep slope : K) (timestepPos : 0 < timestep) (slopePos : 0 < slope)
    (initOutput : K) : RampGenerator K where
  ts := timestep
  slope := slope
  step := timestep * slope
  target := initOutput
  initOutput := initOutput
  output := initOutput
  ts_pos := timestepPos
  slope_pos := slopePos
  step_eq := rfl

def setTarget (ramp : RampGenerator K) (value : K) : RampGenerator K :=
  { ramp with target := value }

def setOutput (ramp : RampGenerator K) (value : K) : RampGenerator K :=
  { ramp with target := value, output := value }

def reset (ramp : RampGenerator K) : RampGenerator K := setOutput ramp ramp.initOutput

def setSlope (ramp : RampGenerator K) (timestep slope : K) (timestepPos : 0 < timestep)
    (slopePos : 0 < slope) : RampGenerator K :=
  { ramp with
    ts := timestep
    slope := slope
    step := timestep * slope
    ts_pos := timestepPos
    slope_pos := slopePos
    step_eq := rfl }

def setTimestep (ramp : RampGenerator K) (ts : K) (tsPos : 0 < ts) : RampGenerator K :=
  setSlope ramp ts ramp.slope tsPos ramp.slope_pos

def update (ramp : RampGenerator K) : RampGenerator K :=
  if ramp.output < ramp.target then
    { ramp with output := min (ramp.output + ramp.step) ramp.target }
  else
    { ramp with output := max (ramp.output - ramp.step) ramp.target }

def atTarget (ramp : RampGenerator K) : Bool := decide (ramp.output = ramp.target)

/-- `while (!at_target()) update();`, given up after that many updates. -/
def untilAtTarget : ℕ → RampGenerator K → Option (RampGenerator K)
  | 0, ramp => if atTarget ramp then some ramp else none
  | fuel + 1, ramp => if atTarget ramp then some ramp else untilAtTarget fuel (update ramp)

/-! ## Runs of a generator -/

inductive Operation (K : Type) [Field K] [LinearOrder K] where
  | update
  | setTarget (value : K)
  | setOutput (value : K)
  | reset
  | setSlope (timestep slope : K) (timestepPos : 0 < timestep) (slopePos : 0 < slope)
  | setTimestep (ts : K) (tsPos : 0 < ts)

def apply (ramp : RampGenerator K) : Operation K → RampGenerator K
  | .update => update ramp
  | .setTarget value => setTarget ramp value
  | .setOutput value => setOutput ramp value
  | .reset => reset ramp
  | .setSlope timestep slope timestepPos slopePos =>
    setSlope ramp timestep slope timestepPos slopePos
  | .setTimestep ts tsPos => setTimestep ramp ts tsPos

/-- The generator after the operations. -/
def applyAll (ramp : RampGenerator K) (operations : List (Operation K)) : RampGenerator K :=
  operations.foldl apply ramp

/-! ## One update -/

@[simp] theorem update_target (ramp : RampGenerator K) : (update ramp).target = ramp.target := by
  unfold update
  split <;> rfl

@[simp] theorem update_step (ramp : RampGenerator K) : (update ramp).step = ramp.step := by
  unfold update
  split <;> rfl

/-- An update from below: the output rises, by a step or to the target. -/
theorem update_below {ramp : RampGenerator K} (below : ramp.output < ramp.target) :
    (update ramp).output = min (ramp.output + ramp.step) ramp.target := by
  rw [update, if_pos below]

/-- An update from above or at the target. -/
theorem update_above {ramp : RampGenerator K} (above : ramp.target ≤ ramp.output) :
    (update ramp).output = max (ramp.output - ramp.step) ramp.target := by
  rw [update, if_neg (not_lt.mpr above)]

theorem updates_target (ramp : RampGenerator K) (n : ℕ) :
    (update^[n] ramp).target = ramp.target := by
  induction n with
  | zero => rfl
  | succ n ih => rw [Function.iterate_succ_apply', update_target, ih]

theorem updates_step (ramp : RampGenerator K) (n : ℕ) : (update^[n] ramp).step = ramp.step := by
  induction n with
  | zero => rfl
  | succ n ih => rw [Function.iterate_succ_apply', update_step, ih]

/-- What is left to the target. -/
def remaining (ramp : RampGenerator K) : K := |ramp.target - ramp.output|

variable [IsStrictOrderedRing K]

theorem step_pos (ramp : RampGenerator K) : 0 < ramp.step := by
  rw [ramp.step_eq]
  exact mul_pos ramp.ts_pos ramp.slope_pos

/-- The output stays on its side of the target. -/
theorem update_between (ramp : RampGenerator K) :
    (update ramp).output ∈ Set.uIcc ramp.output ramp.target := by
  have positive := step_pos ramp
  rcases lt_or_ge ramp.output ramp.target with below | above
  · rw [update_below below, Set.uIcc_of_le below.le]
    exact ⟨le_min (le_add_of_nonneg_right positive.le) below.le, min_le_right _ _⟩
  · rw [update_above above, Set.uIcc_of_ge above]
    exact ⟨le_max_right _ _, max_le (sub_le_self _ positive.le) above⟩

theorem update_moves (ramp : RampGenerator K) :
    |(update ramp).output - ramp.output| ≤ ramp.step := by
  have positive := step_pos ramp
  rcases lt_or_ge ramp.output ramp.target with below | above
  · have rises : ramp.output ≤ (update ramp).output := by
      have between := update_between ramp
      rw [Set.uIcc_of_le below.le] at between
      exact between.1
    have short : (update ramp).output ≤ ramp.output + ramp.step := by
      rw [update_below below]
      apply min_le_left
    rw [abs_of_nonneg (sub_nonneg.mpr rises)]
    linarith
  · have falls : (update ramp).output ≤ ramp.output := by
      have between := update_between ramp
      rw [Set.uIcc_of_ge above] at between
      exact between.2
    have short : ramp.output - ramp.step ≤ (update ramp).output := by
      rw [update_above above]
      apply le_max_left
    rw [abs_of_nonpos (sub_nonpos.mpr falls)]
    linarith

/-- An update takes a step off what is left, down to nothing. -/
theorem update_remaining (ramp : RampGenerator K) :
    remaining (update ramp) = max (remaining ramp - ramp.step) 0 := by
  unfold remaining
  rw [update_target]
  rcases lt_or_ge ramp.output ramp.target with below | above
  · rw [update_below below, abs_of_pos (sub_pos.mpr below),
      abs_of_nonneg (sub_nonneg.mpr (min_le_right _ _)), ← max_sub_sub_left, sub_self,
      sub_add_eq_sub_sub]
  · rw [update_above above, abs_sub_comm ramp.target ramp.output,
      abs_of_nonneg (sub_nonneg.mpr above), abs_sub_comm,
      abs_of_nonneg (sub_nonneg.mpr (le_max_right _ _)), ← max_sub_sub_right, sub_self,
      sub_right_comm]

theorem update_closer (ramp : RampGenerator K) : remaining (update ramp) ≤ remaining ramp := by
  rw [update_remaining]
  apply max_le
  · exact sub_le_self _ (step_pos ramp).le
  · exact abs_nonneg _

theorem output_eq_iff (ramp : RampGenerator K) :
    ramp.output = ramp.target ↔ remaining ramp ≤ 0 := by
  rw [remaining, abs_nonpos_iff, sub_eq_zero, eq_comm]

/-! ## Updates in a row -/

theorem updates_remaining (ramp : RampGenerator K) (n : ℕ) :
    remaining (update^[n] ramp) = max (remaining ramp - n * ramp.step) 0 := by
  induction n with
  | zero =>
    have nonneg : 0 ≤ remaining ramp := abs_nonneg _
    rw [Function.iterate_zero_apply, Nat.cast_zero, zero_mul, sub_zero, max_eq_left nonneg]
  | succ n ih =>
    have negative : 0 - ramp.step ≤ 0 := by
      rw [zero_sub]
      exact neg_nonpos.mpr (step_pos ramp).le
    rw [Function.iterate_succ_apply', update_remaining, updates_step, ih, ← max_sub_sub_right,
      max_assoc, max_eq_right negative, sub_sub, Nat.cast_succ, add_one_mul]

variable [FloorRing K]

/-- The updates that the target is away. -/
def updatesLeft (ramp : RampGenerator K) : ℕ := ⌈remaining ramp / ramp.step⌉₊

theorem updates_reach (ramp : RampGenerator K) (n : ℕ) :
    (update^[n] ramp).output = ramp.target ↔ updatesLeft ramp ≤ n := by
  have reached := output_eq_iff (update^[n] ramp)
  rw [updates_target, updates_remaining] at reached
  rw [reached, updatesLeft, Nat.ceil_le, div_le_iff₀ (step_pos ramp), max_le_iff, sub_nonpos]
  exact and_iff_left le_rfl

theorem atTarget_iff (ramp : RampGenerator K) : atTarget ramp = true ↔ updatesLeft ramp = 0 := by
  have now := updates_reach ramp 0
  rw [Function.iterate_zero_apply, Nat.le_zero] at now
  rw [atTarget, decide_eq_true_iff, now]

theorem updatesLeft_update (ramp : RampGenerator K) :
    updatesLeft (update ramp) = updatesLeft ramp - 1 := by
  apply eq_of_forall_ge_iff
  intro n
  have reached := updates_reach (update ramp) n
  rw [update_target, ← Function.iterate_succ_apply, updates_reach] at reached
  rw [← reached, Nat.sub_le_iff_le_add]

/-- The loop stops, and it stops after the updates that the target was away. -/
theorem untilAtTarget_eq (ramp : RampGenerator K) (fuel : ℕ) :
    untilAtTarget fuel ramp =
      if updatesLeft ramp ≤ fuel then some (update^[updatesLeft ramp] ramp) else none := by
  induction fuel generalizing ramp with
  | zero =>
    unfold untilAtTarget
    by_cases done : updatesLeft ramp = 0
    · rw [if_pos ((atTarget_iff ramp).mpr done), if_pos done.le, done, Function.iterate_zero_apply]
    · rw [if_neg (mt (atTarget_iff ramp).mp done), if_neg (mt Nat.le_zero.mp done)]
  | succ fuel ih =>
    unfold untilAtTarget
    by_cases done : updatesLeft ramp = 0
    · rw [if_pos ((atTarget_iff ramp).mpr done), if_pos (done.le.trans (Nat.zero_le _)), done,
        Function.iterate_zero_apply]
    · obtain ⟨later, left⟩ := Nat.exists_eq_succ_of_ne_zero done
      rw [if_neg (mt (atTarget_iff ramp).mp done), ih, updatesLeft_update, left,
        Nat.succ_sub_one, Function.iterate_succ_apply]
      simp only [Nat.succ_eq_add_one, Nat.add_le_add_iff_right]

/-! ## Every run -/

/-- **The ramp reaches its target without going past it**: after any operations on a generator, the
next update moves the output by at most the step, between where it was and the target; and updates
alone bring it to the target in as many as fit the distance, rounded up, for the loop too. -/
theorem ramp_reaches_target (timestep slope initOutput : K) (timestepPos : 0 < timestep)
    (slopePos : 0 < slope) (operations : List (Operation K)) :
    let ramp := applyAll (.new timestep slope timestepPos slopePos initOutput) operations
    |(update ramp).output - ramp.output| ≤ ramp.step ∧
      (update ramp).output ∈ Set.uIcc ramp.output ramp.target ∧
      |ramp.target - (update ramp).output| ≤ |ramp.target - ramp.output| ∧
      (∀ n, (update^[n] ramp).target = ramp.target ∧ (update^[n] ramp).step = ramp.step ∧
        ((update^[n] ramp).output = ramp.target ↔ ⌈|ramp.target - ramp.output| / ramp.step⌉₊ ≤ n)) ∧
      ∃ fuel last, untilAtTarget fuel ramp = some last ∧ last.output = ramp.target := by
  intro ramp
  have closer := update_closer ramp
  unfold remaining at closer
  rw [update_target] at closer
  refine ⟨update_moves ramp, update_between ramp, closer, ?_, ?_⟩
  · intro n
    exact ⟨updates_target ramp n, updates_step ramp n, updates_reach ramp n⟩
  · refine ⟨updatesLeft ramp, update^[updatesLeft ramp] ramp, ?_, ?_⟩
    · rw [untilAtTarget_eq, if_pos le_rfl]
    · exact (updates_reach ramp _).mpr le_rfl

/-- A target that is changed midway, and a slope that is doubled: a distance of 9 in steps of 2. -/
theorem ramp_reaches_target_testing :
    let operations : List (Operation ℚ) :=
      [.setTarget 5, .update, .setTarget (-8), .setSlope 1 2 one_pos two_pos]
    let ramp := applyAll (.new 1 1 one_pos one_pos 0) operations
    ∀ n, (update^[n] ramp).output = -8 ↔ 5 ≤ n := by
  intro operations ramp n
  have reached := ((ramp_reaches_target 1 1 0 one_pos one_pos operations).2.2.2.1 n).2.2
  have stepped : ramp.step = 2 := by norm_num [ramp, operations, applyAll, apply, setSlope]
  have aimed : ramp.target = -8 := by
    norm_num [ramp, operations, applyAll, apply, setSlope, setTarget]
  have risen : ramp.output = 1 := by
    norm_num [ramp, operations, applyAll, apply, setSlope, setTarget, update, RampGenerator.new]
  have away : ⌈|ramp.target - ramp.output| / ramp.step⌉₊ = 5 := by
    rw [stepped, aimed, risen]
    norm_num [abs_of_neg, Nat.ceil_eq_iff]
  rw [← away, ← aimed]
  exact reached

end Emblib.Ramp
