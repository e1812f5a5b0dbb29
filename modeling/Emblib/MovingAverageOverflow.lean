import Mathlib.Algebra.Order.BigOperators.Group.List
import Emblib.Library.Integers
import Emblib.MovingAverage

/-! The moving average of a fixed-width integer type. The sum has the type of the samples, so it is
the sum of the window only as long as that fits: with a wider window or larger samples it wraps,
and the output leaves the range of the samples. -/
namespace Emblib.MovingAverageOverflow
open Programs Machines CircularBuffer InplaceStorage Filters Integers MovingAverage
open CircularBufferRefinement hiding Operation perform

/-- The operators of an integer type: they work on promoted operands, and what they give is
converted back. -/
def fixedWidth (intBits : Nat) (type : IntType) : Arithmetic (Value type) where
  zero := convert type 0
  accumulate sum inputV := do
    let next ← evaluate (promote intBits type) (sum.val + inputV.val)
    return convert type next.val
  replace sum front inputV := do
    let rest ← evaluate (promote intBits type) (sum.val - front.val)
    let next ← evaluate (promote intBits type) (rest.val + inputV.val)
    return convert type next.val
  divide sum count := do
    let divider := convert (promote intBits type) count
    if divider.val = 0 then none
    else
      let quotient ← evaluate (promote intBits type) (sum.val.tdiv divider.val)
      return convert type quotient.val

/-- The mathematical sum. -/
def total (values : List (Value type)) : Int := (values.map Value.val).sum

/-! ## One operation of the sample type -/

section Arithmetic
variable {intBits : Nat} {type : IntType} {sum front value : Value type}

theorem accumulate_exact (fits : Fits type (sum.val + value.val)) :
    (fixedWidth intBits type).accumulate sum value = some ⟨sum.val + value.val, fits⟩ := by
  unfold fixedWidth
  simp only [evaluate_fits (fits_promote intBits fits), Option.bind_eq_bind, Option.bind_some,
    convert_fits fits]
  rfl

/-- In an unsigned type it does not matter whether the difference wraps. -/
theorem replace_exact (rest : (promote intBits type).signed = true →
      Fits (promote intBits type) (sum.val - front.val))
    (fits : Fits type (sum.val - front.val + value.val)) :
    (fixedWidth intBits type).replace sum front value =
      some ⟨sum.val - front.val + value.val, fits⟩ := by
  unfold fixedWidth
  cases sign : (promote intBits type).signed with
  | true =>
    simp only [evaluate_fits (rest sign), Option.bind_eq_bind, Option.bind_some,
      evaluate_fits (fits_promote intBits fits), convert_fits fits]
    rfl
  | false =>
    have same (x : Int) : (convert (promote intBits type) x).val = (convert type x).val := by
      rw [promote_unsigned sign]
    have wrapped : convert type ((convert type (sum.val - front.val)).val + value.val) =
        convert type (sum.val - front.val + value.val) :=
      convert_congr ((convert_modEq type _).add_right value.val)
    simp only [evaluate_unsigned sign, Option.bind_eq_bind, Option.bind_some, same, wrapped,
      convert_fits fits]
    rfl

theorem rest_fits (signed : (promote intBits type).signed = true)
    (defined : (fixedWidth intBits type).replace sum front value = some next) :
    Fits (promote intBits type) (sum.val - front.val) := by
  obtain ⟨rest, evaluated, _⟩ := Option.bind_eq_some_iff.mp defined
  exact fits_of_evaluate signed evaluated

/-- A quotient by a count that the type of the quotient can hold. -/
theorem divide_exact {count : Nat} (positive : 0 < count)
    (counted : Fits (promote intBits type) count) (fits : Fits type (sum.val.tdiv count)) :
    (fixedWidth intBits type).divide sum count = some ⟨sum.val.tdiv count, fits⟩ := by
  have nonzero : (count : Int) ≠ 0 := by omega
  unfold fixedWidth
  simp only [convert_fits counted, if_neg nonzero, evaluate_fits (fits_promote intBits fits),
    Option.bind_eq_bind, Option.bind_some, convert_fits fits]
  rfl

end Arithmetic

/-! ## One push -/

section Push
variable {config : Config} {intBits : Nat} {type : IntType} {elements samples : List (Value type)}
  {sum value : Value type} {filter : MovingAverageFilter (Value type)}

/-- The sums that a push computes fit: that of the new window, and, where overflow is undefined,
that of the samples which stay in a full window. -/
structure SumsFit (config : Config) (intBits : Nat) (type : IntType) (samples : List (Value type))
    (value : Value type) : Prop where
  window : Fits type (total ((samples ++ [value]).rtake config.capacity))
  rest : (promote intBits type).signed = true →
    (samples.rtake config.capacity).length = config.capacity →
    Fits (promote intBits type) (total (samples.rtake config.capacity).tail)

/-- The type of a quotient can hold the number of samples in the window. -/
def CountFits (config : Config) (intBits : Nat) (type : IntType) (samples : List (Value type))
    (value : Value type) : Prop :=
  Fits (promote intBits type) ((samples ++ [value]).rtake config.capacity).length

theorem total_snoc (values : List (Value type)) (value : Value type) :
    total (values ++ [value]) = total values + value.val := by
  rw [total, List.map_append, List.sum_append, List.map_singleton, List.sum_singleton]
  rfl

theorem nextSum_total (same : sum.val = total elements)
    (rest : (promote intBits type).signed = true → elements.length = bound →
      Fits (promote intBits type) (total elements.tail))
    (positive : 0 < bound) (fits : Fits type (total (Deque.pushBack bound value elements))) :
    nextSum (fixedWidth intBits type) bound elements sum value =
      some ⟨total (Deque.pushBack bound value elements), fits⟩ := by
  unfold nextSum
  unfold Deque.pushBack at fits ⊢
  by_cases isFull : elements.length = bound
  · simp only [if_pos isFull] at fits ⊢
    cases elements with
    | nil => exact absurd isFull positive.ne
    | cons first others =>
      have left : sum.val - first.val = total others := by
        rw [same, total, List.map_cons, List.sum_cons]
        exact add_sub_cancel_left _ _
      simp only [List.tail_cons, total_snoc, ← left] at fits ⊢
      refine replace_exact ?_ fits
      rw [left]
      exact fun signed => rest signed isFull
  · simp only [if_neg isFull, total_snoc, ← same] at fits ⊢
    exact accumulate_exact fits

/-- The window, its sum, and after a push an output between the smallest and the largest sample. -/
structure Sums (config : Config) (history : History (Value type))
    (filter : MovingAverageFilter (Value type)) : Prop where
  data : Represents config filter.data (history.samples.rtake config.capacity)
  sum : filter.sum.val = total (history.samples.rtake config.capacity)
  above : history.samples ≠ [] → ∀ low,
    (∀ sample ∈ history.samples.rtake config.capacity, low ≤ sample.val) → low ≤ filter.output.val
  below : history.samples ≠ [] → ∀ high,
    (∀ sample ∈ history.samples.rtake config.capacity, sample.val ≤ high) →
      filter.output.val ≤ high

theorem le_mean {low : Int} (pending : elements ≠ []) (above : ∀ sample ∈ elements, low ≤ sample.val) :
    low ≤ (total elements).tdiv elements.length := by
  have positive : (0 : Int) < elements.length := by
    exact_mod_cast List.length_pos_iff.mpr pending
  apply le_tdiv positive
  have bound := List.card_nsmul_le_sum (elements.map Value.val) low (by simpa using above)
  rwa [List.length_map, nsmul_eq_mul] at bound

theorem mean_le {high : Int} (pending : elements ≠ []) (below : ∀ sample ∈ elements, sample.val ≤ high) :
    (total elements).tdiv elements.length ≤ high := by
  have positive : (0 : Int) < elements.length := by
    exact_mod_cast List.length_pos_iff.mpr pending
  apply tdiv_le positive
  have bound := List.sum_le_card_nsmul (elements.map Value.val) high (by simpa using below)
  rwa [List.length_map, nsmul_eq_mul] at bound

theorem fits_mean (pending : elements ≠ []) : Fits type ((total elements).tdiv elements.length) := by
  have high : (total elements).tdiv elements.length ≤ type.upper - 1 :=
    mean_le pending fun sample _ => Int.le_sub_one_of_lt sample.fits.2
  exact ⟨le_mean pending fun sample _ => sample.fits.1, Int.lt_of_le_sub_one high⟩

theorem sums_push (sums : Sums config history filter)
    (fits : SumsFit config intBits type history.samples value)
    (counted : CountFits config intBits type history.samples value) (initOutput : Value type) :
    ∃ next, push config (fixedWidth intBits type) filter value = some next ∧
      Sums config (history.next initOutput (.push value)) next := by
  have pushed := pushBack_represents value sums.data
  have window := Deque.pushBack_rtake config.positive value history.samples
  have fitted := fits.window
  unfold CountFits at counted
  rw [push_eq sums.data]
  rw [← window] at fitted counted
  rw [nextSum_total sums.sum fits.rest config.positive fitted, Option.bind_some]
  have pending : Deque.pushBack config.capacity value (history.samples.rtake config.capacity) ≠ [] := by
    unfold Deque.pushBack
    split <;> exact List.concat_ne_nil _ _
  rw [divide_exact (List.length_pos_iff.mpr pending) counted (fits_mean pending)]
  refine ⟨_, rfl, ?_, ?_, ?_, ?_⟩
  · rwa [window] at pushed
  · exact congrArg total window
  · intro _ low above
    exact le_mean pending fun sample member => above sample (window ▸ member)
  · intro _ high below
    exact mean_le pending fun sample member => below sample (window ▸ member)

theorem sums_set (set value : Value type) (filter : MovingAverageFilter (Value type)) :
    Sums config ⟨set, []⟩ (setOutput config (fixedWidth intBits type) filter value) where
  data := by
    rw [List.rtake_nil]
    exact clear_represents
  sum := by
    rw [List.rtake_nil]
    exact congrArg Value.val (convert_fits (fits_zero type))
  above := fun some => absurd rfl some
  below := fun some => absurd rfl some

/-- A push that gave the right sums had sums that fit. -/
theorem sumsFit_of_push (before : Sums config history filter)
    (pushed : push config (fixedWidth intBits type) filter value = some next)
    (after : Sums config (history.next initOutput (.push value)) next) :
    SumsFit config intBits type history.samples value where
  window := by
    have sum := after.sum
    rw [History.next] at sum
    rw [← sum]
    exact next.sum.fits
  rest := by
    intro signed isFull
    rw [push_eq before.data] at pushed
    obtain ⟨sum, summed, _⟩ := Option.bind_eq_some_iff.mp pushed
    rw [nextSum, if_pos isFull] at summed
    obtain ⟨first, head, replaced⟩ := Option.bind_eq_some_iff.mp summed
    have fits := rest_fits signed replaced
    obtain ⟨others, window⟩ := List.head?_eq_some_iff.mp head
    have left : filter.sum.val - first.val = total others := by
      rw [before.sum, window, total, List.map_cons, List.sum_cons]
      exact add_sub_cancel_left _ _
    rw [left] at fits
    rwa [window]

end Push

/-! ## Every run -/

section Runs
variable (config : Config) (intBits : Nat) (type : IntType) (initOutput : Value type)
  (operations : List (Operation (Value type)))

/-- The sum is that of the window and the output between the samples, in every state of the run. -/
def SumsHold : Prop :=
  ∀ done later, operations = done ++ later → ∃ filter,
    (methods config (fixedWidth intBits type)).applyAll
        (.new config (fixedWidth intBits type) initOutput) done = some filter ∧
      Sums config (historyOf initOutput done) filter

/-- **The average of integers is right as long as its sums fit**: if they do at every push of a run,
then every state has the sum of its window and an output between the samples; and only if they do
can every state be so. -/
theorem integer_average_right_iff_sums_fit :
    (AtEveryPush
        (fun samples value =>
          SumsFit config intBits type samples value ∧ CountFits config intBits type samples value)
        initOutput operations →
      SumsHold config intBits type initOutput operations) ∧
    (SumsHold config intBits type initOutput operations →
      AtEveryPush (SumsFit config intBits type) initOutput operations) := by
  constructor
  · rintro fits done later rfl
    refine run_history (Sums config) ?_ ?_ ?_ ?_ (atEveryPush_earlier fits)
    · intro history filter value sums allowed
      exact sums_push sums allowed.1 allowed.2 initOutput
    · intro history filter value _
      exact sums_set value value filter
    · intro history filter _
      exact sums_set initOutput filter.initOutput filter
    · exact sums_set initOutput initOutput _
  · rintro holds done value later split
    obtain ⟨filter, ran, before⟩ := holds done (.push value :: later) split
    obtain ⟨next, ranNext, after⟩ := holds (done ++ [.push value]) later (by simp [split])
    rw [applyAll_snoc, ran, Option.bind_some] at ranNext
    rw [historyOf_snoc] at after
    exact sumsFit_of_push before ranNext after

end Runs

theorem uint16_positive : 0 < 16 := by decide

/-- `std::uint16_t`. -/
def uint16 : IntType := ⟨16, false, uint16_positive⟩

def testingWindow : Config where
  capacity := 2
  positive := Nat.two_pos
  triviallyCopyable := true
  triviallyDestructible := true
  destructible := fun _ => rfl
  keepsItself := true
  kept := fun _ => rfl

/-- Two samples of 40000 in a window of two: the sum wraps to 14464, and the output is 7232. -/
theorem sum_of_samples_wraps :
    let operations : List (Operation (Value uint16)) :=
      [.push (convert uint16 40000), .push (convert uint16 40000)]
    (∃ filter, (methods testingWindow (fixedWidth 32 uint16)).applyAll
        (.new testingWindow (fixedWidth 32 uint16) (convert uint16 0)) operations = some filter ∧
      filter.sum.val = 14464 ∧ filter.output.val = 7232) ∧
    ¬ SumsHold testingWindow 32 uint16 (convert uint16 0) operations := by
  intro operations
  have wraps : ∃ filter, (methods testingWindow (fixedWidth 32 uint16)).applyAll
      (.new testingWindow (fixedWidth 32 uint16) (convert uint16 0)) operations = some filter ∧
      filter.sum.val = 14464 ∧ filter.output.val = 7232 := ⟨_, rfl, rfl, rfl⟩
  refine ⟨wraps, fun holds => ?_⟩
  obtain ⟨filter, ran, sum, _⟩ := wraps
  obtain ⟨same, ranSame, sums⟩ := holds operations [] (List.append_nil _).symm
  rw [ran] at ranSame
  obtain rfl := Option.some_inj.mp ranSame
  have wrong := sum.symm.trans sums.sum
  exact absurd wrong (by decide)
end Emblib.MovingAverageOverflow
