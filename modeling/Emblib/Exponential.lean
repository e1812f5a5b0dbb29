import Mathlib.LinearAlgebra.AffineSpace.Ordered
import Mathlib.Algebra.Order.Field.Rat
import Mathlib.Algebra.Order.Module.Rat
import Emblib.Filters
import Emblib.Library.Numbers

/-! The exponential filters move their output towards a value by a fraction of the way. The fraction
is a quotient of two durations, clamped to be one, so the output stays between where it was and the
value, however the durations are changed between the samples. -/
namespace Emblib.Exponential
open Filters Numbers

/-! ## The fraction -/

/-- A time constant that a duration can be divided by. -/
abbrev TimeConstant (K : Type) [Field K] [LinearOrder K] := { timeConstant : K // 0 < timeConstant }

/-- The members that `set_smoothing` and `set_timestep` write. -/
structure Smoothing (K : Type) [Field K] [LinearOrder K] where
  samplingPeriod : K
  timeConstant : TimeConstant K
  smoothFactor : K
  nonneg : 0 ≤ smoothFactor
  le_one : smoothFactor ≤ 1

section Smoothing
variable {K : Type} [Field K] [LinearOrder K] [IsStrictOrderedRing K]

def setSmoothing (samplingPeriod : K) (timeConstant : TimeConstant K) : Smoothing K where
  samplingPeriod := samplingPeriod
  timeConstant := timeConstant
  smoothFactor := clamp (samplingPeriod / timeConstant) 0 1
  nonneg := (clamp_range zero_le_one).1
  le_one := (clamp_range zero_le_one).2

def setTimestep (smoothing : Smoothing K) (ts : K) : Smoothing K := setSmoothing ts smoothing.timeConstant

end Smoothing

/-! ## The way to a value -/

section Smooth
variable {K T : Type} [Field K] [LinearOrder K] [AddCommGroup T] [Module K T]

/-- `output_ + smooth_factor_ * (v - output_)` -/
def smooth (smoothing : Smoothing K) (output v : T) : T :=
  output + smoothing.smoothFactor • (v - output)

theorem smooth_eq (smoothing : Smoothing K) (output v : T) :
    smooth smoothing output v = AffineMap.lineMap output v smoothing.smoothFactor := by
  rw [AffineMap.lineMap_apply_module', add_comm]
  rfl

variable [IsStrictOrderedRing K] [LinearOrder T] [IsOrderedAddMonoid T] [IsStrictOrderedModule K T]
  {smoothing : Smoothing K} {low high output v : T}

theorem le_smooth (output_above : low ≤ output) (v_above : low ≤ v) : low ≤ smooth smoothing output v := by
  have mono := lineMap_mono_endpoints output_above v_above smoothing.nonneg smoothing.le_one
  rwa [AffineMap.lineMap_same_apply, ← smooth_eq] at mono

theorem smooth_le (output_below : output ≤ high) (v_below : v ≤ high) :
    smooth smoothing output v ≤ high := by
  have mono := lineMap_mono_endpoints output_below v_below smoothing.nonneg smoothing.le_one
  rwa [AffineMap.lineMap_same_apply, ← smooth_eq] at mono

/-- The output comes no further away from the value, and stays on its side. -/
structure Approaches (v output next : T) : Prop where
  nearer : |next - v| ≤ |output - v|
  below : output ≤ v → next ≤ v
  above : v ≤ output → v ≤ next

theorem smooth_approaches (smoothing : Smoothing K) (output v : T) :
    Approaches v output (smooth smoothing output v) where
  nearer := by
    cases le_total output v with
    | inl behind =>
      have nearer : output ≤ smooth smoothing output v := le_smooth le_rfl behind
      have side : smooth smoothing output v ≤ v := smooth_le behind le_rfl
      rw [abs_of_nonpos (sub_nonpos.mpr side), abs_of_nonpos (sub_nonpos.mpr behind)]
      exact neg_le_neg (sub_le_sub_right nearer v)
    | inr ahead =>
      have nearer : smooth smoothing output v ≤ output := smooth_le le_rfl ahead
      have side : v ≤ smooth smoothing output v := le_smooth ahead le_rfl
      rw [abs_of_nonneg (sub_nonneg.mpr side), abs_of_nonneg (sub_nonneg.mpr ahead)]
      exact sub_le_sub_right nearer v
  below := fun behind => smooth_le behind le_rfl
  above := fun ahead => le_smooth ahead le_rfl

end Smooth

/-! ## Runs -/

section Runs
variable {F K T : Type} [Field K] [LinearOrder K]

inductive Operation (K T : Type) [Field K] [LinearOrder K] where
  | filter (operation : Filters.Operation T)
  | setSmoothing (samplingPeriod : K) (timeConstant : TimeConstant K)
  | setTimestep (ts : K)

/-- The member functions of a filter that is smoothed. -/
structure SmoothedMethods (F K T : Type) [Field K] [LinearOrder K] extends Methods F T where
  setSmoothing : F → K → TimeConstant K → F
  setTimestep : F → K → F

def SmoothedMethods.perform (methods : SmoothedMethods F K T) (filter : F) :
    Operation K T → Option F
  | .filter operation => methods.apply filter operation
  | .setSmoothing samplingPeriod timeConstant =>
    some (methods.setSmoothing filter samplingPeriod timeConstant)
  | .setTimestep ts => some (methods.setTimestep filter ts)

def SmoothedMethods.performAll (methods : SmoothedMethods F K T) (filter : F)
    (operations : List (Operation K T)) : Option F :=
  operations.foldlM methods.perform filter

def Operation.toFilter : Operation K T → Option (Filters.Operation T)
  | .filter operation => some operation
  | .setSmoothing _ _ | .setTimestep _ => none

/-- A new filter is reset. The durations leave no trace. -/
def historyOf (initOutput : T) (operations : List (Operation K T)) : History T :=
  Filters.historyOf initOutput (operations.filterMap Operation.toFilter)

/-- What every member function keeps holds in every run. -/
theorem run_smoothed {methods : SmoothedMethods F K T} {initOutput : T}
    (holds : History T → F → Prop)
    (applied : ∀ history filter operation, holds history filter →
      ∃ next, methods.apply filter operation = some next ∧ holds (history.next initOutput operation) next)
    (smoothed : ∀ history filter samplingPeriod timeConstant, holds history filter →
      holds history (methods.setSmoothing filter samplingPeriod timeConstant))
    (timed : ∀ history filter ts, holds history filter → holds history (methods.setTimestep filter ts))
    (initial : holds ⟨initOutput, []⟩ start) (operations : List (Operation K T)) :
    ∃ filter, methods.performAll start operations = some filter ∧
      holds (historyOf initOutput operations) filter := by
  unfold historyOf Filters.historyOf
  generalize (⟨initOutput, []⟩ : History T) = history at initial ⊢
  induction operations generalizing start history with
  | nil => exact ⟨start, rfl, initial⟩
  | cons operation operations ih =>
    cases operation with
    | filter operation =>
      obtain ⟨next, ran, kept⟩ := applied history start operation initial
      obtain ⟨filter, rest, holding⟩ := ih _ kept
      refine ⟨filter, ?_, holding⟩
      rw [SmoothedMethods.performAll, List.foldlM_cons, SmoothedMethods.perform, ran]
      exact rest
    | setSmoothing samplingPeriod timeConstant =>
      exact ih history (smoothed history start samplingPeriod timeConstant initial)
    | setTimestep ts => exact ih history (timed history start ts initial)

end Runs

/-! ## The range of the data -/

section Range
variable {T : Type} [LinearOrder T] {history : History T} {initOutput output v x : T}

/-- The value that the output was set to last, and the samples since. -/
def values (history : History T) : List T := history.set :: history.samples

omit [LinearOrder T] in
theorem values_some (history : History T) : values history ≠ [] := List.cons_ne_nil _ _

/-- Between the minimum and the maximum of the values. -/
structure Within (history : History T) (output : T) : Prop where
  above : (values history).min (values_some history) ≤ output
  below : output ≤ (values history).max (values_some history)

theorem within_value (member : v ∈ values history) : Within history v where
  above := List.min_le_of_mem member
  below := List.le_max_of_mem member

/-- One more sample takes nothing away. -/
theorem within_push (within : Within history output) (x : T) :
    Within (history.next initOutput (.push x)) output := by
  have kept {v : T} (member : v ∈ values history) : v ∈ values (history.next initOutput (.push x)) :=
    List.mem_append_left [x] member
  constructor
  · have least := kept (List.min_mem (values_some history))
    exact (within_value least).above.trans within.above
  · have greatest := kept (List.max_mem (values_some history))
    exact within.below.trans (within_value greatest).below

theorem within_smooth {K : Type} [Field K] [LinearOrder K] [IsStrictOrderedRing K] [AddCommGroup T]
    [IsOrderedAddMonoid T] [Module K T] [IsStrictOrderedModule K T] (smoothing : Smoothing K)
    (before : Within history output) (target : Within history v) :
    Within history (smooth smoothing output v) where
  above := le_smooth before.above target.above
  below := smooth_le before.below target.below

end Range

/-! ## The exponential filter -/

/-- `exponential_filter`. -/
structure ExponentialFilter (K T : Type) [Field K] [LinearOrder K] where
  smoothing : Smoothing K
  initOutput : T
  output : T

section Filter
variable {K T : Type} [Field K] [LinearOrder K] [AddCommGroup T] [Module K T]

def push (filter : ExponentialFilter K T) (inputV : T) : ExponentialFilter K T :=
  { filter with output := smooth filter.smoothing filter.output inputV }

def setOutput (filter : ExponentialFilter K T) (outputV : T) : ExponentialFilter K T :=
  { filter with output := outputV }

def reset (filter : ExponentialFilter K T) : ExponentialFilter K T := setOutput filter filter.initOutput

variable [IsStrictOrderedRing K]

/-- The constructor, which leaves `output_` to `reset`. -/
def ExponentialFilter.new (samplingPeriod : K) (timeConstant : TimeConstant K) (initOutput : T) :
    ExponentialFilter K T :=
  reset
    { smoothing := setSmoothing samplingPeriod timeConstant
      initOutput := initOutput
      output := initOutput }

def methods : SmoothedMethods (ExponentialFilter K T) K T where
  push filter inputV := some (push filter inputV)
  setOutput := setOutput
  reset := reset
  setSmoothing filter samplingPeriod timeConstant :=
    { filter with smoothing := setSmoothing samplingPeriod timeConstant }
  setTimestep filter ts := { filter with smoothing := setTimestep filter.smoothing ts }

variable [LinearOrder T] [IsOrderedAddMonoid T] [IsStrictOrderedModule K T]

structure InRange (initOutput : T) (history : History T) (filter : ExponentialFilter K T) : Prop where
  initOutput : filter.initOutput = initOutput
  within : Within history filter.output

theorem exponential_inRange (samplingPeriod : K) (timeConstant : TimeConstant K) (initOutput : T)
    (operations : List (Operation K T)) :
    ∃ filter, methods.performAll (.new samplingPeriod timeConstant initOutput) operations = some filter ∧
      InRange initOutput (historyOf initOutput operations) filter := by
  apply run_smoothed (InRange initOutput)
  · rintro history filter operation ⟨same, within⟩
    cases operation with
    | push value =>
      have target : Within (history.next initOutput (.push value)) value :=
        within_value (List.mem_append_right (history.set :: history.samples) List.mem_cons_self)
      exact ⟨_, rfl, same, within_smooth filter.smoothing (within_push within value) target⟩
    | setOutput value => exact ⟨_, rfl, same, within_value List.mem_cons_self⟩
    | reset =>
      refine ⟨_, rfl, same, ?_⟩
      have output : (reset filter).output = initOutput := same
      exact output ▸ within_value List.mem_cons_self
  · exact fun history filter samplingPeriod timeConstant inRange => ⟨inRange.initOutput, inRange.within⟩
  · exact fun history filter ts inRange => ⟨inRange.initOutput, inRange.within⟩
  · exact ⟨rfl, within_value List.mem_cons_self⟩

end Filter

/-! ## One sample over and over -/

section Repeated
variable {F K T : Type} [Field K] [LinearOrder K]

def SmoothedMethods.pushes (methods : SmoothedMethods F K T) (filter : F) (x : T) (count : Nat) :
    Option F :=
  methods.performAll filter (List.replicate count (.filter (.push x)))

theorem pushes_succ {methods : SmoothedMethods F K T} (ran : methods.push filter x = some next)
    (count : Nat) : methods.pushes filter x (count + 1) = methods.pushes next x count := by
  rw [SmoothedMethods.pushes, SmoothedMethods.performAll, List.replicate_succ, List.foldlM_cons,
    SmoothedMethods.perform, Methods.apply, ran]
  rfl

theorem performAll_pushes {methods : SmoothedMethods F K T} {operations : List (Operation K T)}
    (ran : methods.performAll start operations = some filter) (x : T) (count : Nat) :
    methods.performAll start (operations ++ List.replicate count (.filter (.push x))) =
      methods.pushes filter x count := by
  rw [SmoothedMethods.performAll] at ran ⊢
  rw [List.foldlM_append, ran]
  rfl

theorem historyOf_pushes (initOutput : T) (operations : List (Operation K T)) (x : T) (count : Nat) :
    historyOf initOutput (operations ++ List.replicate count (.filter (.push x))) =
      ⟨(historyOf initOutput operations).set,
        (historyOf initOutput operations).samples ++ List.replicate count x⟩ := by
  have sample : (Operation.filter (.push x) : Operation K T).toFilter = some (.push x) := rfl
  unfold historyOf
  rw [List.filterMap_append, List.filterMap_replicate_of_some sample]
  induction count with
  | zero =>
    rw [List.replicate_zero, List.append_nil, List.replicate_zero, List.append_nil]
  | succ count ih =>
    rw [List.replicate_succ', ← List.append_assoc, historyOf_snoc, ih, List.replicate_succ',
      ← List.append_assoc]
    rfl

variable [AddCommGroup T] [LinearOrder T]

/-- Every push of the sample brings the output no further away from it, and never past it. -/
def Settles (methods : SmoothedMethods F K T) (output : F → T) (filter : F) (x : T) : Prop :=
  ∀ count, ∃ before after, methods.pushes filter x count = some before ∧
    methods.pushes filter x (count + 1) = some after ∧ Approaches x (output before) (output after)

/-- What a push of the sample keeps, where it makes an output approach the sample. -/
theorem settles_of_step {methods : SmoothedMethods F K T} {output : F → T} {x : T} (holds : F → Prop)
    (step : ∀ filter, holds filter →
      ∃ next, methods.push filter x = some next ∧ holds next ∧ Approaches x (output filter) (output next))
    (initial : holds filter) : Settles methods output filter x := by
  intro count
  induction count generalizing filter with
  | zero =>
    obtain ⟨next, ran, _, approaches⟩ := step filter initial
    exact ⟨filter, next, rfl, pushes_succ ran 0, approaches⟩
  | succ count ih =>
    obtain ⟨next, ran, kept, _⟩ := step filter initial
    obtain ⟨before, after, first, second, approaches⟩ := ih kept
    exact ⟨before, after, (pushes_succ ran count).trans first,
      (pushes_succ ran (count + 1)).trans second, approaches⟩

theorem exponential_settles [Module K T] [IsStrictOrderedRing K] [IsOrderedAddMonoid T]
    [IsStrictOrderedModule K T] (filter : ExponentialFilter K T) (x : T) :
    Settles methods ExponentialFilter.output filter x := by
  apply settles_of_step fun _ => True
  · intro filter _
    exact ⟨push filter x, rfl, trivial, smooth_approaches filter.smoothing filter.output x⟩
  · trivial

end Repeated

end Emblib.Exponential
