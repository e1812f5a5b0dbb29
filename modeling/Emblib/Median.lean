import Emblib.CircularBufferRefinement
import Emblib.Filters
import Emblib.Library.Rank

/-! The median filter. Setting the output fills the window with that value, so the window is full
from the start, and every push overwrites the oldest entry; the output is the entry in the middle
of the sorted window. -/
namespace Emblib.Median
open Programs Machines CircularBuffer InplaceStorage Filters Ranks
open CircularBufferRefinement hiding Operation perform

/-! ## The filter -/

structure MedianFilter (T : Type) where
  window : Object T
  initOutput : T
  output : T

section Filter
variable {T : Type} [LinearOrder T] (config : Config) (valueInitialized : T)

/-- The loop that copies the window into an array of `window_size` elements, `value_type{}` before
they are assigned. -/
def windowCopy (window : Object T) (count : Nat) : Option (List T) :=
  (List.range count).foldlM
    (fun (windowSorted : List T) i => do
      let element ← (run access (get config i) window).1.value?
      return windowSorted.set i element)
    (List.replicate config.capacity valueInitialized)

def push (filter : MedianFilter T) (inputV : T) : Option (MedianFilter T) := do
  let window := (run access (pushBack config (.outside inputV)) filter.window).2
  let copied ← windowCopy config valueInitialized window (run access size window).1
  -- `std::sort`
  let windowSorted := copied.insertionSort (· ≤ ·)
  let output ← windowSorted[config.capacity / 2]?
  return { filter with window, output }

def setOutput (filter : MedianFilter T) (outputV : T) : MedianFilter T :=
  { filter with
    window := (run access (fill config (.outside outputV)) filter.window).2
    output := outputV }

def reset (filter : MedianFilter T) : MedianFilter T := setOutput config filter filter.initOutput

/-- The constructor, which leaves `output_` to `reset`. -/
def MedianFilter.new (initOutput : T) : MedianFilter T :=
  reset config { window := .initial, initOutput := initOutput, output := initOutput }

def methods : Methods (MedianFilter T) T where
  push := push config valueInitialized
  setOutput := setOutput config
  reset := reset config

end Filter

/-! ## The copy of the window -/

section Push
variable {T : Type} {config : Config} {valueInitialized : T} {elements : List T}
  {window : Object T}

theorem run_get (represents : Represents config window elements) (inside : i < elements.length) :
    (run access (get config i) window).1.value? = elements[i]? :=
  value?_of_live (represents_get represents (represents_length represents ▸ inside))

/-- The loop copies the elements in order. -/
theorem windowCopy_prefix (represents : Represents config window elements)
    (below : count ≤ elements.length) :
    windowCopy config valueInitialized window count =
      some (elements.take count ++ List.replicate (config.capacity - count) valueInitialized) := by
  induction count with
  | zero => rfl
  | succ count ih =>
    have inside : count < elements.length := below
    have bound := represents.size
    rw [represents_length represents] at bound
    obtain ⟨room, left⟩ : ∃ room, config.capacity = count + 1 + room :=
      Nat.exists_eq_add_of_le (by omega)
    have before : config.capacity - count = room + 1 := by omega
    have after : config.capacity - (count + 1) = room := by omega
    have copied := ih inside.le
    unfold windowCopy at copied ⊢
    rw [List.range_succ, List.foldlM_append, copied, Option.bind_eq_bind, Option.bind_some,
      List.foldlM_cons, run_get represents inside, List.getElem?_eq_getElem inside, before, after]
    simp only [Option.bind_eq_bind, Option.bind_some, Option.pure_def, List.foldlM_nil, Option.some_inj]
    rw [List.set_append_right _ _ (List.length_take_le _ _), List.length_take_of_le inside.le,
      Nat.sub_self, List.replicate_succ, List.set_cons_zero, ← List.take_append_getElem inside,
      List.append_assoc, List.singleton_append]

theorem windowCopy_full (represents : Represents config window elements)
    (isFull : elements.length = config.capacity) :
    windowCopy config valueInitialized window (run access size window).1 = some elements := by
  rw [run_size, represents_length represents, windowCopy_prefix represents le_rfl, isFull,
    Nat.sub_self, List.replicate_zero, List.append_nil, ← isFull, List.take_length]

/-! ## Every run -/

/-- `window_size` copies of the value that the output was set to, and the samples since. -/
def entries (config : Config) (history : History T) : List T :=
  List.replicate config.capacity history.set ++ history.samples

/-- A window that is full stays full. -/
theorem entries_full (config : Config) (history : History T) :
    ((entries config history).rtake config.capacity).length = config.capacity := by
  rw [List.rtake, List.length_drop, entries, List.length_append, List.length_replicate]
  omega

variable [LinearOrder T]

/-- The window is full, it is made of the last entries, and after a push the output is the one of
the middle rank. -/
structure IsMedian (config : Config) (initOutput : T) (history : History T)
    (filter : MedianFilter T) : Prop where
  data : Represents config filter.window ((entries config history).rtake config.capacity)
  isFull : ((entries config history).rtake config.capacity).length = config.capacity
  initOutput : filter.initOutput = initOutput
  output : history.samples ≠ [] →
    filter.output ∈ (entries config history).rtake config.capacity ∧
      ((entries config history).rtake config.capacity).countP (· < filter.output) ≤
        config.capacity / 2 ∧
      ((entries config history).rtake config.capacity).countP (filter.output < ·) ≤
        config.capacity / 2

theorem median_set (initOutput value : T) (filter : MedianFilter T)
    (same : filter.initOutput = initOutput) :
    IsMedian config initOutput ⟨value, []⟩ (setOutput config filter value) where
  data := by
    have all : (List.replicate config.capacity value).rtake config.capacity =
        List.replicate config.capacity value := by
      rw [List.rtake, List.length_replicate, Nat.sub_self, List.drop_zero]
    rw [entries, List.append_nil, all]
    exact fill_represents value
  isFull := entries_full config _
  initOutput := same
  output := fun some => absurd rfl some

theorem median_push (median : IsMedian config initOutput history filter) (value : T) :
    ∃ next, push config valueInitialized filter value = some next ∧
      IsMedian config initOutput (history.next initOutput (.push value)) next := by
  have pushed := pushBack_represents value median.data
  rw [Deque.pushBack_rtake config.positive, entries, List.append_assoc] at pushed
  have isFull := entries_full config (history.next initOutput (.push value))
  have copied : windowCopy config valueInitialized _ _ = some _ := windowCopy_full pushed isFull
  have middle : config.capacity / 2 < config.capacity := Nat.div_lt_self config.positive (by decide)
  have inside : config.capacity / 2 <
      (((entries config (history.next initOutput (.push value))).rtake config.capacity).insertionSort
        (· ≤ ·)).length := by
    rw [List.length_insertionSort, isFull]
    exact middle
  obtain ⟨output, here⟩ : ∃ output, _ = some output := ⟨_, List.getElem?_eq_getElem inside⟩
  have ran : push config valueInitialized filter value =
      some { filter with
        window := (run access (pushBack config (.outside value)) filter.window).2
        output } := by
    unfold push
    simp only [copied, Option.bind_eq_bind, Option.bind_some]
    exact Option.bind_eq_some_iff.mpr ⟨output, here, rfl⟩
  obtain ⟨member, smaller, larger⟩ := sorted_rank here
  rw [isFull] at larger
  refine ⟨_, ran, pushed, isFull, median.initOutput, fun _ => ⟨member, smaller, ?_⟩⟩
  dsimp only
  omega

/-- **The median filter is the median of the window**: in every run, the window is full of the last
entries, and after a push at most half of them are smaller than the output and at most half are
larger. The size of the window is odd, so the halves are rounded down. -/
theorem median_of_window (config : Config) (valueInitialized initOutput : T)
    (operations : List (Operation T)) :
    ∃ filter, (methods config valueInitialized).applyAll (.new config initOutput) operations =
        some filter ∧
      IsMedian config initOutput (historyOf initOutput operations) filter := by
  have all : AtEveryPush (fun _ _ => True) initOutput operations := fun _ _ _ _ => trivial
  refine run_history (IsMedian config initOutput) ?_ ?_ ?_ ?_ all
  · intro history filter value median _
    exact median_push median value
  · intro history filter value median
    exact median_set initOutput value filter median.initOutput
  · intro history filter median
    have cleared : IsMedian config initOutput ⟨filter.initOutput, []⟩ (reset config filter) :=
      median_set initOutput filter.initOutput filter median.initOutput
    rwa [median.initOutput] at cleared
  · exact median_set initOutput initOutput _ rfl

end Push
end Emblib.Median
