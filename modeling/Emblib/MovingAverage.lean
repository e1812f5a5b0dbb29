import Mathlib.Algebra.BigOperators.Group.List.Basic
import Mathlib.Algebra.Field.Basic
import Emblib.CircularBufferRefinement
import Emblib.Filters

/-! The moving average keeps the sum of its window: a push adds the new sample and, on a full
window, takes off the oldest one, which the buffer is about to overwrite. In exact arithmetic the
sum is that of the window, wherever the window lies in its ring. -/
namespace Emblib.MovingAverage
open Programs Machines CircularBuffer InplaceStorage Filters
open CircularBufferRefinement hiding Operation perform

/-! ## The filter -/

/-- The operators of the sample type that the filter uses; in C++ some of them may be undefined. -/
structure Arithmetic (T : Type) where
  /-- `value_type{0}` -/
  zero : T
  /-- `sum_ += input_v` -/
  accumulate : T → T → Option T
  /-- `sum_ - data_.front() + input_v` -/
  replace : T → T → T → Option T
  /-- `sum_ / static_cast<divider_type>(data_.size())` -/
  divide : T → Nat → Option T

structure MovingAverageFilter (T : Type) where
  data : Object T
  sum : T
  initOutput : T
  output : T

section Filter
variable {T : Type} (config : Config) (arithmetic : Arithmetic T)

def push (filter : MovingAverageFilter T) (inputV : T) : Option (MovingAverageFilter T) := do
  let data := (run access (pushBack config (.outside inputV)) filter.data).2
  let sum ←
    if !(run access (full config) filter.data).1 then
      arithmetic.accumulate filter.sum inputV
    else do
      -- the front is read before the push overwrites it
      let front ← (run access front filter.data).1.value?
      arithmetic.replace filter.sum front inputV
  let output ← arithmetic.divide sum (run access size data).1
  return { filter with data, sum, output }

def setOutput (filter : MovingAverageFilter T) (outputV : T) : MovingAverageFilter T :=
  { filter with
    data := (run access (clear config) filter.data).2
    sum := arithmetic.zero
    output := outputV }

def reset (filter : MovingAverageFilter T) : MovingAverageFilter T :=
  setOutput config arithmetic filter filter.initOutput

/-- The constructor. It leaves `sum_` and `output_` to `reset`. -/
def MovingAverageFilter.new (initOutput : T) : MovingAverageFilter T :=
  reset config arithmetic
    { data := .initial
      sum := arithmetic.zero
      initOutput := initOutput
      output := initOutput }

def methods : Methods (MovingAverageFilter T) T where
  push := push config arithmetic
  setOutput := setOutput config arithmetic
  reset := reset config arithmetic

end Filter

/-! ## One push -/

section Push
variable {T : Type} {config : Config} {arithmetic : Arithmetic T}
  {filter : MovingAverageFilter T} {elements : List T}

/-- The sum after a push onto these elements. -/
def nextSum (arithmetic : Arithmetic T) (bound : Nat) (elements : List T) (sum value : T) : Option T :=
  if elements.length = bound then elements.head?.bind (arithmetic.replace sum · value)
  else arithmetic.accumulate sum value

theorem run_front (represents : Represents config buffer elements) (pending : elements ≠ []) :
    (run access front buffer).1.value? = elements.head? :=
  value?_of_live (represents_front represents (represents_pending represents pending))

/-- A push is told by the elements of the window, wherever it lies in the ring. -/
theorem push_eq (represents : Represents config filter.data elements) (value : T) :
    push config arithmetic filter value =
      (nextSum arithmetic config.capacity elements filter.sum value).bind fun sum =>
        (arithmetic.divide sum (Deque.pushBack config.capacity value elements).length).map fun output =>
          { filter with
            data := (run access (pushBack config (.outside value)) filter.data).2
            sum
            output } := by
  have length := represents_length represents
  have size : (run access size (run access (pushBack config (.outside value)) filter.data).2).1 =
      (Deque.pushBack config.capacity value elements).length :=
    represents_length (pushBack_represents value represents)
  unfold push nextSum
  simp only [size, run_full, length]
  by_cases isFull : elements.length = config.capacity
  · have pending : elements ≠ [] := by
      rintro rfl
      exact absurd isFull.symm config.positive.ne'
    rw [run_front represents pending]
    simp only [isFull, BEq.rfl, Bool.not_true, Bool.false_eq_true, if_false, if_true, Option.pure_def,
      Option.bind_eq_bind, Option.map_eq_bind, Option.bind_assoc]
    rfl
  · have room : (!elements.length == config.capacity) = true := by simp [isFull]
    simp only [room, if_true, if_neg isFull, Option.pure_def, Option.bind_eq_bind, Option.map_eq_bind]
    rfl

end Push

/-! ## Exact arithmetic -/

section Exact
variable {T : Type} [AddCommGroup T] {config : Config} {quotient : T → Nat → T}
  {filter : MovingAverageFilter T} {elements : List T}

/-- A type whose sums are exact, with this division by a count. -/
def exact (quotient : T → Nat → T) : Arithmetic T where
  zero := 0
  accumulate sum inputV := some (sum + inputV)
  replace sum front inputV := some (sum - front + inputV)
  divide sum count := some (quotient sum count)

/-- The sample that is taken off is the one that leaves the window. -/
theorem nextSum_exact (positive : 0 < bound) (value : T) :
    nextSum (exact quotient) bound elements elements.sum value =
      some (Deque.pushBack bound value elements).sum := by
  unfold nextSum Deque.pushBack
  by_cases isFull : elements.length = bound
  · rw [if_pos isFull, if_pos isFull]
    cases elements with
    | nil => exact absurd isFull positive.ne
    | cons first rest =>
      have left : first + rest.sum - first = rest.sum := add_sub_cancel_left first rest.sum
      simp [exact, left]
  · rw [if_neg isFull, if_neg isFull, List.sum_append, List.sum_singleton]
    rfl

/-- The window is the last samples, the sum is theirs, and after a push the output is the sum by
their count. -/
structure Average (config : Config) (quotient : T → Nat → T) (initOutput : T) (history : History T)
    (filter : MovingAverageFilter T) : Prop where
  data : Represents config filter.data (history.samples.rtake config.capacity)
  sum : filter.sum = (history.samples.rtake config.capacity).sum
  initOutput : filter.initOutput = initOutput
  output : filter.output =
    if history.samples = [] then history.set
    else quotient filter.sum (history.samples.rtake config.capacity).length

theorem average_set (initOutput value : T) (filter : MovingAverageFilter T)
    (same : filter.initOutput = initOutput) :
    Average config quotient initOutput ⟨value, []⟩ (setOutput config (exact quotient) filter value) where
  data := by
    rw [List.rtake_nil]
    exact clear_represents
  sum := by
    rw [List.rtake_nil]
    rfl
  initOutput := same
  output := rfl

theorem average_push (average : Average config quotient initOutput history filter) (value : T) :
    ∃ next, push config (exact quotient) filter value = some next ∧
      Average config quotient initOutput (history.next initOutput (.push value)) next := by
  have pushed := pushBack_represents value average.data
  have window := Deque.pushBack_rtake config.positive value history.samples
  rw [push_eq average.data, average.sum, nextSum_exact config.positive, window]
  rw [window] at pushed
  refine ⟨_, rfl, pushed, rfl, average.initOutput, ?_⟩
  have some : history.samples ++ [value] ≠ [] := List.concat_ne_nil value history.samples
  exact (if_neg some).symm

/-- In every run, the filter is the average of the samples since its output was set. -/
def Recomputes (config : Config) (quotient : T → Nat → T) : Prop :=
  ∀ (initOutput : T) (operations : List (Operation T)), ∃ filter,
    (methods config (exact quotient)).applyAll (.new config (exact quotient) initOutput) operations =
        some filter ∧
      Average config quotient initOutput (historyOf initOutput operations) filter

theorem recomputes (config : Config) (quotient : T → Nat → T) : Recomputes config quotient := by
  intro initOutput operations
  have all : AtEveryPush (fun _ _ => True) initOutput operations := fun _ _ _ _ => trivial
  refine run_history (Average config quotient initOutput) ?_ ?_ ?_ ?_ all
  · intro history filter value average _
    exact average_push average value
  · intro history filter value average
    exact average_set initOutput value filter average.initOutput
  · intro history filter average
    have cleared : Average config quotient initOutput ⟨filter.initOutput, []⟩
        (reset config (exact quotient) filter) :=
      average_set initOutput filter.initOutput filter average.initOutput
    rwa [average.initOutput] at cleared
  · exact average_set initOutput initOutput _ rfl

end Exact

/-- **The running sum is the sum of the window**, in every run over an exact type: the window holds
the last samples since the output was set, and after a push the output is their sum divided by
their count, truncated for integers. -/
theorem moving_average_recomputes (config : Config) :
    (∀ (K : Type) [Field K], Recomputes config fun (sum : K) count => sum / count) ∧
      Recomputes config fun (sum : Int) count => sum.tdiv count :=
  ⟨fun _ _ => recomputes config _, recomputes config _⟩

end Emblib.MovingAverage
