import Mathlib.Data.List.DropRight
import Emblib.SvpwmAgreement
import Emblib.VectorTransforms

/-! The sine generator adds to its phase and normalizes it at each update. In exact arithmetic no error
adds up: after any number of updates the output is the sample of one sine wave, and three generators a
third of a turn apart are one vector that turns with their phase. -/
namespace Emblib.SineGenerators
open Pwm Svpwm SvpwmAgreement SinPwm VectorTransforms
open DqControl (realRoots VecDq)
open Real (pi sin cos)

noncomputable section

/-! ## The generator -/

structure SineGenerator (V : Type) where
  updatePeriod : ℝ
  ampl : V
  wfreq : ℝ
  initPhase : ℝ
  bias : V
  phase : ℝ
  output : V

section Generator
variable {V : Type} [AddCommGroup V] [Module ℝ V]

/-- The member `output_` for a phase. -/
def outputAt (generator : SineGenerator V) (phase : ℝ) : V := sin phase • generator.ampl + generator.bias

def reset (generator : SineGenerator V) : SineGenerator V :=
  { generator with phase := generator.initPhase, output := outputAt generator generator.initPhase }

def update (generator : SineGenerator V) : SineGenerator V :=
  let phase := norm2pi id (generator.phase + generator.wfreq * generator.updatePeriod)
  { generator with phase := phase, output := outputAt generator phase }

/-- The constructor. -/
def SineGenerator.new (updatePeriod : ℝ) (ampl : V) (freq initPhase : ℝ) (bias : V) : SineGenerator V :=
  reset { updatePeriod, ampl, wfreq := 2 * pi * freq, initPhase, bias, phase := 0, output := 0 }

inductive Operation where
  | update
  | reset
  deriving DecidableEq

def apply (generator : SineGenerator V) : Operation → SineGenerator V
  | .update => update generator
  | .reset => reset generator

def applyAll (generator : SineGenerator V) (operations : List Operation) : SineGenerator V :=
  operations.foldl apply generator

/-- The number of updates since the last reset. -/
def samples (operations : List Operation) : Nat := (operations.rtakeWhile (· == .update)).length

omit [AddCommGroup V] [Module ℝ V] in
theorem samples_update (operations : List Operation) : samples (operations ++ [.update]) = samples operations + 1 := by
  rw [samples, List.rtakeWhile_concat_pos _ _ _ rfl, List.length_append, List.length_singleton, samples]

omit [AddCommGroup V] [Module ℝ V] in
theorem samples_reset (operations : List Operation) : samples (operations ++ [.reset]) = 0 := by
  rw [samples, List.rtakeWhile_concat_neg _ _ _ (by simp)]
  rfl

omit [AddCommGroup V] [Module ℝ V] in
theorem samples_updates (operations : List Operation) (count : Nat) :
    samples (operations ++ List.replicate count .update) = samples operations + count := by
  induction count with
  | zero => rw [List.replicate_zero, List.append_nil, Nat.add_zero]
  | succ count ih =>
    rw [List.replicate_succ', ← List.append_assoc, samples_update, ih, Nat.add_assoc]

/-! ## The samples -/

/-- The generator is so many updates past its initial phase, in whole circles less. -/
structure Sampled (start : SineGenerator V) (count : Nat) (generator : SineGenerator V) : Prop where
  settings : generator = { start with phase := generator.phase, output := generator.output }
  output : generator.output = outputAt start generator.phase
  circles : ∃ circles : ℤ, start.initPhase + count * (start.wfreq * start.updatePeriod) =
    generator.phase + circles * twoPi
  normal : 0 < count → 0 ≤ generator.phase ∧ generator.phase < twoPi

variable {start generator : SineGenerator V} {count : Nat}

theorem reset_sampled (sampled : Sampled start count generator) : Sampled start 0 (reset generator) := by
  obtain ⟨settings, -, -, -⟩ := sampled
  rw [settings]
  refine ⟨rfl, rfl, ⟨0, ?_⟩, fun none => absurd none (lt_irrefl 0)⟩
  rw [Nat.cast_zero, zero_mul, Int.cast_zero, zero_mul]
  rfl

theorem update_sampled (sampled : Sampled start count generator) :
    Sampled start (count + 1) (update generator) := by
  obtain ⟨settings, -, ⟨before, same⟩, -⟩ := sampled
  rw [settings]
  obtain ⟨⟨circles, angle⟩, below⟩ := norm2pi_exact (generator.phase + start.wfreq * start.updatePeriod)
  have nonneg := (norm2pi_range (fun _ low high => ⟨low, high⟩ : Contained id)
    (generator.phase + start.wfreq * start.updatePeriod)).1
  refine ⟨rfl, rfl, ⟨before + circles, ?_⟩, fun _ => ⟨nonneg, below⟩⟩
  show _ = norm2pi id (generator.phase + start.wfreq * start.updatePeriod) + _
  push_cast
  linarith

/-- All operations of a run. -/
theorem applyAll_sampled (sampled : Sampled start 0 start) (operations : List Operation) :
    Sampled start (samples operations) (applyAll start operations) := by
  induction operations using List.reverseRecOn with
  | nil => exact sampled
  | append_singleton operations operation ih =>
    unfold applyAll at ih ⊢
    rw [List.foldl_concat]
    cases operation with
    | update =>
      rw [samples_update]
      exact update_sampled ih
    | reset =>
      rw [samples_reset]
      exact reset_sampled ih

theorem new_sampled (updatePeriod : ℝ) (ampl : V) (freq initPhase : ℝ) (bias : V) :
    Sampled (.new updatePeriod ampl freq initPhase bias) 0 (.new updatePeriod ampl freq initPhase bias) := by
  refine ⟨rfl, rfl, ⟨0, ?_⟩, fun none => absurd none (lt_irrefl 0)⟩
  rw [Nat.cast_zero, zero_mul, Int.cast_zero, zero_mul]
  rfl

/-- The output is a sample of the sine wave that starts with the initial phase. -/
theorem sampled_output (sampled : Sampled start count generator) :
    generator.output = outputAt start (start.initPhase + count * (start.wfreq * start.updatePeriod)) := by
  obtain ⟨circles, same⟩ := sampled.circles
  rw [sampled.output, same]
  unfold outputAt twoPi
  rw [Real.sin_add_int_mul_two_pi]

/-- The angle of the sine wave at the end of a run. -/
def angleAfter (updatePeriod freq initPhase : ℝ) (operations : List Operation) : ℝ :=
  initPhase + samples operations * (2 * pi * freq * updatePeriod)

variable (updatePeriod freq initPhase : ℝ)

theorem run_output (ampl bias : V) (operations : List Operation) :
    (applyAll (.new updatePeriod ampl freq initPhase bias) operations).output =
      sin (angleAfter updatePeriod freq initPhase operations) • ampl + bias := by
  rw [sampled_output (applyAll_sampled (new_sampled updatePeriod ampl freq initPhase bias) operations)]
  rfl

theorem run_circles (ampl bias : V) (operations : List Operation) :
    ∃ circles : ℤ, angleAfter updatePeriod freq initPhase operations =
      (applyAll (.new updatePeriod ampl freq initPhase bias) operations).phase + circles * (2 * pi) :=
  (applyAll_sampled (new_sampled updatePeriod ampl freq initPhase bias) operations).circles

/-- Whole turns of the angle. -/
theorem angle_turns (operations : List Operation) {count : Nat} {turns : ℤ}
    (whole : freq * (count * updatePeriod) = turns) :
    angleAfter updatePeriod freq initPhase (operations ++ List.replicate count .update) =
      angleAfter updatePeriod freq initPhase operations + turns * (2 * pi) := by
  unfold angleAfter
  rw [samples_updates, ← whole]
  push_cast
  ring

end Generator

/-! ## Three phases -/

/-- The phases follow each other by a third of a turn. -/
def lag : Phase → ℝ := perPhase 0 (2 * pi / 3) (-(2 * pi / 3))

def threePhases (updatePeriod ampl freq initPhase : ℝ) (phase : Phase) : SineGenerator ℝ :=
  .new updatePeriod ampl freq (initPhase - lag phase) 0

theorem sin_third : sin (2 * pi / 3) = √3 / 2 := by
  have angle : 2 * pi / 3 = pi - pi / 3 := by ring
  rw [angle, Real.sin_pi_sub, Real.sin_pi_div_three]

/-- The phases at one angle are a vector a quarter of a turn behind it. -/
theorem clarke_sines (ampl angle : ℝ) {currents : Phase → ℝ}
    (sines : ∀ phase, currents phase = sin (angle - lag phase) * ampl) :
    clarkeTransform realRoots currents = ⟨sin angle * ampl, -(cos angle * ampl)⟩ := by
  have root : √3 * √3 = 3 := square_root_three realRoots
  have nonzero : √3 ≠ 0 := root_three_ne realRoots
  have alpha : currents .a = sin angle * ampl := by
    rw [sines, show angle - lag .a = angle from sub_zero angle]
  have behind : currents .b = (sin angle * cos (2 * pi / 3) - cos angle * (√3 / 2)) * ampl := by
    rw [sines, show lag .b = 2 * pi / 3 from rfl, Real.sin_sub, sin_third]
  have ahead : currents .c = (sin angle * cos (2 * pi / 3) + cos angle * (√3 / 2)) * ampl := by
    rw [sines, show lag .c = -(2 * pi / 3) from rfl, sub_neg_eq_add, Real.sin_add, sin_third]
  have beta : (currents .b - currents .c) * (1 / √3) = -(cos angle * ampl) := by
    rw [behind, ahead]
    field_simp
    ring
  unfold clarkeTransform
  rw [alpha]
  exact congrArg (VecAb.mk _) beta

theorem park_sines (ampl angle : ℝ) :
    parkTransform ⟨sin angle * ampl, -(cos angle * ampl)⟩ (sin angle) (cos angle) = ⟨0, -ampl⟩ := by
  have unit := Real.sin_sq_add_cos_sq angle
  have d : sin angle * ampl * cos angle + -(cos angle * ampl) * sin angle = 0 := by ring
  have q : -(cos angle * ampl) * cos angle - sin angle * ampl * sin angle = -ampl := by
    linear_combination (-ampl) * unit
  unfold parkTransform
  rw [d, q]

/-- For every run of updates and resets: the phase is only whole circles behind the angle that the updates
since the last reset add up to, and normal from the first of them on, the output is its sample, and updates
that make whole turns change nothing of it. Three generators a third of a turn apart are one vector, which
stands still in the plane that turns with the phase of the first. -/
theorem samples_exact {V : Type} [AddCommGroup V] [Module ℝ V] (updatePeriod freq initPhase : ℝ)
    (operations : List Operation) :
    (∀ ampl bias : V,
      let start := SineGenerator.new updatePeriod ampl freq initPhase bias
      let angle := initPhase + samples operations * (2 * pi * freq * updatePeriod)
      (applyAll start operations).output = sin angle • ampl + bias ∧
        (∃ circles : ℤ, angle = (applyAll start operations).phase + circles * (2 * pi)) ∧
        (0 < samples operations →
          0 ≤ (applyAll start operations).phase ∧ (applyAll start operations).phase < 2 * pi) ∧
        ∀ (count : Nat) (turns : ℤ), freq * (count * updatePeriod) = turns →
          (applyAll start (operations ++ List.replicate count .update)).output = (applyAll start operations).output) ∧
      ∀ ampl : ℝ,
        let phases phase := applyAll (threePhases updatePeriod ampl freq initPhase phase) operations
        let vector := clarkeTransform realRoots fun phase => (phases phase).output
        vector.alpha ^ 2 + vector.beta ^ 2 = ampl ^ 2 ∧
          parkTransform vector (sin (phases .a).phase) (cos (phases .a).phase) = ⟨0, -ampl⟩ := by
  constructor
  · intro ampl bias
    have sampled := applyAll_sampled (new_sampled updatePeriod ampl freq initPhase bias) operations
    refine ⟨run_output updatePeriod freq initPhase ampl bias operations,
      run_circles updatePeriod freq initPhase ampl bias operations, sampled.normal, fun count turns whole => ?_⟩
    rw [run_output, run_output, angle_turns updatePeriod freq initPhase operations whole,
      Real.sin_add_int_mul_two_pi]
  · intro ampl phases vector
    let angle := angleAfter updatePeriod freq initPhase operations
    have lagging (phase : Phase) :
        angleAfter updatePeriod freq (initPhase - lag phase) operations = angle - lag phase :=
      sub_add_eq_add_sub _ _ _
    have sines (phase : Phase) : (phases phase).output = sin (angle - lag phase) * ampl := by
      have output := run_output updatePeriod freq (initPhase - lag phase) ampl 0 operations
      rw [lagging, add_zero, smul_eq_mul] at output
      exact output
    have turned : vector = ⟨sin angle * ampl, -(cos angle * ampl)⟩ := clarke_sines ampl angle sines
    obtain ⟨circles, same⟩ := run_circles updatePeriod freq (initPhase - lag .a) ampl 0 operations
    have first : angle = (phases .a).phase + circles * (2 * pi) := by
      rw [lagging, show angle - lag .a = angle from sub_zero angle] at same
      exact same
    have sine : sin (phases .a).phase = sin angle := by rw [first, Real.sin_add_int_mul_two_pi]
    have cosine : cos (phases .a).phase = cos angle := by rw [first, Real.cos_add_int_mul_two_pi]
    constructor
    · rw [turned]
      linear_combination ampl ^ 2 * Real.sin_sq_add_cos_sq angle
    · rw [turned, sine, cosine]
      exact park_sines ampl angle

end

end Emblib.SineGenerators
