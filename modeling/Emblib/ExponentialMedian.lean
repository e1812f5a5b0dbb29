import Emblib.Exponential
import Emblib.Median

/-! The exponential median filter moves its output towards the median of the window. The median is
one of the entries, so it is within the range of the data, and it is the sample that is pushed once
the window holds no other. -/
namespace Emblib.ExponentialMedian
open Programs Machines CircularBuffer InplaceStorage Filters Median Exponential
open CircularBufferRefinement hiding Operation perform

/-! ## The filter -/

/-- `exponential_median_filter`. -/
structure ExponentialMedianFilter (K T : Type) [Field K] [LinearOrder K] where
  window : Object T
  smoothing : Smoothing K
  initOutput : T
  output : T

section Filter
variable {K T : Type} [Field K] [LinearOrder K] [AddCommGroup T] [LinearOrder T] [Module K T]
  (config : Config) (valueInitialized : T)

def push (filter : ExponentialMedianFilter K T) (inputV : T) : Option (ExponentialMedianFilter K T) := do
  let window := (run access (pushBack config (.outside inputV)) filter.window).2
  let copied ← windowCopy config valueInitialized window (run access size window).1
  -- `std::sort`
  let windowSorted := copied.insertionSort (· ≤ ·)
  let medianV ← windowSorted[config.capacity / 2]?
  return { filter with window, output := smooth filter.smoothing filter.output medianV }

def setOutput (filter : ExponentialMedianFilter K T) (outputV : T) : ExponentialMedianFilter K T :=
  { filter with
    window := (run access (fill config (.outside outputV)) filter.window).2
    output := outputV }

def reset (filter : ExponentialMedianFilter K T) : ExponentialMedianFilter K T :=
  setOutput config filter filter.initOutput

variable [IsStrictOrderedRing K]

/-- The constructor, which leaves `output_` to `reset`. -/
def ExponentialMedianFilter.new (samplingPeriod : K) (timeConstant : TimeConstant K) (initOutput : T) :
    ExponentialMedianFilter K T :=
  reset config
    { window := .initial
      smoothing := setSmoothing samplingPeriod timeConstant
      initOutput := initOutput
      output := initOutput }

def methods : SmoothedMethods (ExponentialMedianFilter K T) K T where
  push := push config valueInitialized
  setOutput := setOutput config
  reset := reset config
  setSmoothing filter samplingPeriod timeConstant :=
    { filter with smoothing := setSmoothing samplingPeriod timeConstant }
  setTimestep filter ts := { filter with smoothing := setTimestep filter.smoothing ts }

end Filter

/-! ## The entries of the window -/

section Entries
variable {T : Type} {config : Config} {history : History T} {x : T}

theorem entries_values (member : x ∈ (entries config history).rtake config.capacity) :
    x ∈ values history := by
  have member := List.mem_of_mem_drop member
  cases List.mem_append.mp member with
  | inl set =>
    rw [List.eq_of_mem_replicate set]
    exact List.mem_cons_self
  | inr sample => exact List.mem_cons_of_mem _ sample

theorem entries_only (all : ∀ y ∈ (entries config history).rtake config.capacity, y = x) :
    (entries config history).rtake config.capacity = List.replicate config.capacity x :=
  List.eq_replicate_iff.mpr ⟨entries_full config history, all⟩

/-- Samples that fill the window leave nothing else in it. -/
theorem entries_filled (config : Config) (set : T) (samples : List T) (x : T) :
    (entries config ⟨set, samples ++ List.replicate config.capacity x⟩).rtake config.capacity =
      List.replicate config.capacity x := by
  rw [entries, ← List.append_assoc, List.rtake]
  apply List.drop_left'
  simp only [List.length_append, List.length_replicate]
  omega

end Entries

/-! ## The median filter inside -/

section Inside
variable {K T : Type} [Field K] [LinearOrder K] [LinearOrder T] {config : Config} {initOutput x : T}
  {history : History T}

/-- The median filter of the same window. -/
def inside (filter : ExponentialMedianFilter K T) (medianV : T) : MedianFilter T :=
  ⟨filter.window, filter.initOutput, medianV⟩

structure InRange (config : Config) (initOutput : T) (history : History T)
    (filter : ExponentialMedianFilter K T) : Prop where
  median : ∃ medianV, IsMedian config initOutput history (inside filter medianV)
  within : Within history filter.output

theorem inRange_set (filter : ExponentialMedianFilter K T) (same : filter.initOutput = initOutput)
    (value : T) : InRange config initOutput ⟨value, []⟩ (setOutput config filter value) where
  median := ⟨value, median_set initOutput value (inside filter value) same⟩
  within := within_value List.mem_cons_self

theorem inRange_reset (filter : ExponentialMedianFilter K T) (same : filter.initOutput = initOutput) :
    InRange config initOutput ⟨initOutput, []⟩ (reset config filter) := by
  rw [reset, same]
  exact inRange_set filter same initOutput

variable [AddCommGroup T] [Module K T] {medianV : T} {filter : ExponentialMedianFilter K T}

/-- A push moves the output towards what a push puts out of the median filter. -/
theorem push_eq_median (config : Config) (valueInitialized : T) (filter : ExponentialMedianFilter K T)
    (medianV inputV : T) :
    push config valueInitialized filter inputV =
      (Median.push config valueInitialized (inside filter medianV) inputV).map fun median =>
        { filter with
          window := median.window
          output := smooth filter.smoothing filter.output median.output } := by
  unfold push Median.push
  simp only [Option.bind_eq_bind, Option.map_eq_bind, Option.bind_assoc]
  rfl

/-- A push moves the output towards an entry of the window. -/
theorem push_median (valueInitialized : T)
    (median : IsMedian config initOutput history (inside filter medianV)) (x : T) :
    ∃ next, IsMedian config initOutput (history.next initOutput (.push x)) next ∧
      next.output ∈ (entries config (history.next initOutput (.push x))).rtake config.capacity ∧
      push config valueInitialized filter x =
        some { filter with
          window := next.window
          output := smooth filter.smoothing filter.output next.output } := by
  have pushed : ∃ next, Median.push config valueInitialized (inside filter medianV) x = some next ∧
      IsMedian config initOutput (history.next initOutput (.push x)) next := median_push median x
  obtain ⟨next, ran, isMedian⟩ := pushed
  have some : (history.next initOutput (.push x)).samples ≠ [] := by simp [History.next]
  refine ⟨next, isMedian, (isMedian.output some).1, ?_⟩
  rw [push_eq_median config valueInitialized filter medianV x, ran]
  rfl

end Inside

/-! ## Every run -/

section Run
variable {K T : Type} [Field K] [LinearOrder K] [AddCommGroup T] [LinearOrder T] [Module K T]
  [IsStrictOrderedRing K] [IsOrderedAddMonoid T] [IsStrictOrderedModule K T] {config : Config}
  {valueInitialized initOutput x : T} {filter : ExponentialMedianFilter K T}

theorem exponentialMedian_inRange (config : Config) (valueInitialized : T) (samplingPeriod : K)
    (timeConstant : TimeConstant K) (initOutput : T) (operations : List (Exponential.Operation K T)) :
    ∃ filter, (methods config valueInitialized).performAll
        (.new config samplingPeriod timeConstant initOutput) operations = some filter ∧
      InRange config initOutput (historyOf initOutput operations) filter := by
  apply run_smoothed (InRange config initOutput)
  · rintro history filter operation ⟨⟨medianV, median⟩, within⟩
    cases operation with
    | push value =>
      obtain ⟨next, isMedian, member, ran⟩ := push_median valueInitialized median value
      have target := within_value (entries_values member)
      refine ⟨_, ran, ⟨next.output, ?_⟩, within_smooth filter.smoothing (within_push within value) target⟩
      exact ⟨isMedian.data, isMedian.isFull, median.initOutput, isMedian.output⟩
    | setOutput value => exact ⟨_, rfl, inRange_set filter median.initOutput value⟩
    | reset => exact ⟨_, rfl, inRange_reset filter median.initOutput⟩
  · rintro history filter samplingPeriod timeConstant ⟨median, within⟩
    exact ⟨median, within⟩
  · rintro history filter ts ⟨median, within⟩
    exact ⟨median, within⟩
  · exact inRange_reset _ rfl

/-! ## One sample over and over -/

/-- The window is full of one sample. -/
def HoldsOnly (config : Config) (x : T) (window : Object T) : Prop :=
  Represents config window (List.replicate config.capacity x)

/-- Once the window holds only the sample, it is the median, and the window stays. -/
theorem only_push (only : HoldsOnly config x filter.window) :
    ∃ next, push config valueInitialized filter x = some next ∧ HoldsOnly config x next.window ∧
      Approaches x filter.output next.output := by
  have all : ∀ y ∈ (entries config ⟨x, []⟩).rtake config.capacity, y = x := by
    intro y member
    exact List.mem_singleton.mp (entries_values member)
  have median : IsMedian config filter.initOutput ⟨x, []⟩ (inside filter x) :=
    ⟨entries_only all ▸ only, entries_full config _, rfl, fun some => absurd rfl some⟩
  obtain ⟨next, isMedian, member, ran⟩ := push_median valueInitialized median x
  have still : ∀ y ∈ (entries config (History.next filter.initOutput ⟨x, []⟩ (.push x))).rtake
      config.capacity, y = x := by
    intro y member
    have member := entries_values member
    simpa [values, History.next] using member
  refine ⟨_, ran, ?_, ?_⟩
  · have data := isMedian.data
    rwa [entries_only still] at data
  · rw [still next.output member]
    exact smooth_approaches filter.smoothing filter.output x

theorem only_filled (samplingPeriod : K) (timeConstant : TimeConstant K)
    {operations : List (Exponential.Operation K T)}
    (ran : (methods config valueInitialized).performAll
      (.new config samplingPeriod timeConstant initOutput) operations = some filter) (x : T) :
    ∃ full, (methods config valueInitialized).pushes filter x config.capacity = some full ∧
      HoldsOnly config x full.window := by
  obtain ⟨full, filled, ⟨medianV, median⟩, _⟩ := exponentialMedian_inRange config valueInitialized
    samplingPeriod timeConstant initOutput
    (operations ++ List.replicate config.capacity (.filter (.push x)))
  rw [performAll_pushes ran] at filled
  refine ⟨full, filled, ?_⟩
  have data := median.data
  rwa [historyOf_pushes, entries_filled] at data

/-- **An exponential filter stays within its data.** In every run, the output is between the minimum
and the maximum of what it was set to last and the samples since. A sample that is pushed over and
over is approached and not passed: by the median filter, once its window holds nothing else, as it
does when the window is full of it. -/
theorem exponential_within_data (samplingPeriod : K) (timeConstant : TimeConstant K) (initOutput : T)
    (operations : List (Exponential.Operation K T)) (config : Config) (valueInitialized : T) :
    (∃ filter, Exponential.methods.performAll (.new samplingPeriod timeConstant initOutput) operations =
        some filter ∧
      Within (historyOf initOutput operations) filter.output ∧
      ∀ x, Settles Exponential.methods ExponentialFilter.output filter x) ∧
    (∃ filter, (methods config valueInitialized).performAll
        (.new config samplingPeriod timeConstant initOutput) operations = some filter ∧
      Within (historyOf initOutput operations) filter.output ∧
      ∀ x, (HoldsOnly config x filter.window →
          Settles (methods config valueInitialized) ExponentialMedianFilter.output filter x) ∧
        ∃ full, (methods config valueInitialized).pushes filter x config.capacity = some full ∧
          HoldsOnly config x full.window) := by
  constructor
  · obtain ⟨filter, ran, inRange⟩ := exponential_inRange samplingPeriod timeConstant initOutput operations
    exact ⟨filter, ran, inRange.within, exponential_settles filter⟩
  · obtain ⟨filter, ran, inRange⟩ := exponentialMedian_inRange config valueInitialized samplingPeriod
      timeConstant initOutput operations
    refine ⟨filter, ran, inRange.within, fun x => ⟨fun only => ?_, ?_⟩⟩
    · exact settles_of_step (HoldsOnly config x ·.window) (fun _ => only_push) only
    · exact only_filled samplingPeriod timeConstant ran x

end Run

/-! ## A step response -/

def testingWindow : Config where
  capacity := 3
  positive := Nat.succ_pos 2
  triviallyCopyable := true
  triviallyDestructible := true
  destructible := id
  keepsItself := true
  kept := id

def testingConstant : TimeConstant ℚ := ⟨1 / 10, by norm_num⟩

def testingStep : List (Exponential.Operation ℚ ℚ) :=
  [.filter (.push 50), .setTimestep (1 / 20), .filter (.push 50)]

theorem exponential_within_data_testing :
    (∃ filter, Exponential.methods.performAll (.new (1 / 100) testingConstant 0) testingStep =
        some filter ∧
      Within (historyOf 0 testingStep) filter.output ∧
      ∀ x, Settles Exponential.methods ExponentialFilter.output filter x) ∧
    (∃ filter, (methods testingWindow 0).performAll
        (.new testingWindow (1 / 100) testingConstant 0) testingStep = some filter ∧
      Within (historyOf 0 testingStep) filter.output ∧
      ∀ x, (HoldsOnly testingWindow x filter.window →
          Settles (methods testingWindow 0) ExponentialMedianFilter.output filter x) ∧
        ∃ full, (methods testingWindow 0).pushes filter x testingWindow.capacity = some full ∧
          HoldsOnly testingWindow x full.window) :=
  exponential_within_data (1 / 100) testingConstant 0 testingStep testingWindow 0

end Emblib.ExponentialMedian
