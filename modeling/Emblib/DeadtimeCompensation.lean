import Emblib.SinPwm

/-! The two compensations of the dead time. The first corrects the duty of each phase by the sign of its current,
the second the one phase whose current has the sign that the others have not, by twice as much. What the
load sees is the differences of the duties, and there the two agree if every current is above the threshold. -/
namespace Emblib.DeadtimeCompensation
open Pwm SinPwm
open DqControl (UnsignedPu)

variable {K : Type} [Field K] [LinearOrder K] [IsStrictOrderedRing K]

/-! ## `deadtime_compensation.hpp` -/

/-- The operators of `unsigned_pu`. -/
def plus (lhs rhs : UnsignedPu K) : UnsignedPu K := .new (lhs.value + rhs.value)

def minus (lhs rhs : UnsignedPu K) : UnsignedPu K := .new (lhs.value - rhs.value)

def times (lhs : K) (rhs : UnsignedPu K) : UnsignedPu K := .new (rhs.value * lhs)

def compensateDeadtimeV1 (dutycycles : Phase → UnsignedPu K) (currents : Phase → K)
    (currentThreshold pwmPeriod deadtime : K) : Phase → UnsignedPu K :=
  let deadtimeDutycycle : UnsignedPu K := .new (deadtime / pwmPeriod)
  fun i =>
    if currents i > currentThreshold then plus (dutycycles i) deadtimeDutycycle
    else if currents i < -currentThreshold then minus (dutycycles i) deadtimeDutycycle
    else dutycycles i

/-- The first of `std::minmax_element`: the first smallest element. -/
def minElement (currents : Phase → K) : Phase :=
  let first := if currents .b < currents .a then Phase.b else .a
  if currents .c < currents first then .c else first

/-- The second of `std::minmax_element`: the last largest element. -/
def maxElement (currents : Phase → K) : Phase :=
  let first := if currents .b < currents .a then Phase.a else .b
  if currents .c < currents first then first else .c

def compensateDeadtimeV2 (dutycycles : Phase → UnsignedPu K) (currents : Phase → K)
    (_currentThreshold pwmPeriod deadtime : K) : Phase → UnsignedPu K :=
  let deadtimeDutycycle : UnsignedPu K := .new (deadtime / pwmPeriod)
  let min := minElement currents
  let max := maxElement currents
  if currents min + currents max > 0 then
    Function.update dutycycles max (plus (dutycycles max) (times 2 deadtimeDutycycle))
  else if currents min + currents max < 0 then
    Function.update dutycycles min (minus (dutycycles min) (times 2 deadtimeDutycycle))
  else dutycycles

/-! ## The corrections -/

variable {dutycycles : Phase → UnsignedPu K} {currents : Phase → K} {threshold pwmPeriod deadtime share : K}

/-- What the first compensation adds, in parts of the dead time. -/
def signOf (threshold current : K) : K := if current > threshold then 1 else if current < -threshold then -1 else 0

/-- What the second one adds, in parts of twice the dead time. -/
def shiftOf (currents : Phase → K) (i : Phase) : K :=
  if currents (minElement currents) + currents (maxElement currents) > 0 then
    if i = maxElement currents then 1 else 0
  else if currents (minElement currents) + currents (maxElement currents) < 0 then
    if i = minElement currents then -1 else 0
  else 0

/-- The duties are far enough from the rails for either correction. -/
def Room (dutycycles : Phase → UnsignedPu K) (share : K) : Prop :=
  ∀ i, share + share ≤ (dutycycles i).value ∧ (dutycycles i).value ≤ 1 - (share + share)

section Elements
omit [Field K] [IsStrictOrderedRing K]

theorem min_le (currents : Phase → K) (i : Phase) : currents (minElement currents) ≤ currents i := by
  unfold minElement
  cases i <;> grind

theorem le_max (currents : Phase → K) (i : Phase) : currents i ≤ currents (maxElement currents) := by
  unfold maxElement
  cases i <;> grind

end Elements

theorem share_value (room : Room dutycycles (deadtime / pwmPeriod)) (positive : 0 < deadtime / pwmPeriod) :
    (UnsignedPu.new (deadtime / pwmPeriod)).value = deadtime / pwmPeriod ∧
      (times 2 (.new (deadtime / pwmPeriod))).value = deadtime / pwmPeriod + deadtime / pwmPeriod := by
  obtain ⟨low, high⟩ := room .a
  have single : (UnsignedPu.new (deadtime / pwmPeriod)).value = deadtime / pwmPeriod :=
    new_value positive.le (by linarith)
  refine ⟨single, ?_⟩
  unfold times
  rw [single, mul_two, new_value (by linarith) (by linarith)]

theorem plus_value {d e : UnsignedPu K} (below : d.value + e.value ≤ 1) : (plus d e).value = d.value + e.value :=
  new_value (add_nonneg d.nonneg e.nonneg) below

theorem minus_value {d e : UnsignedPu K} (above : e.value ≤ d.value) : (minus d e).value = d.value - e.value :=
  new_value (sub_nonneg.mpr above) (by linarith [d.atMostOne, e.nonneg])

theorem v1_value (room : Room dutycycles (deadtime / pwmPeriod)) (positive : 0 < deadtime / pwmPeriod) (i : Phase) :
    (compensateDeadtimeV1 dutycycles currents threshold pwmPeriod deadtime i).value =
      (dutycycles i).value + deadtime / pwmPeriod * signOf threshold (currents i) := by
  obtain ⟨single, -⟩ := share_value room positive
  obtain ⟨low, high⟩ := room i
  unfold compensateDeadtimeV1 signOf
  split_ifs
  · rw [plus_value (by linarith), single, mul_one]
  · rw [minus_value (by linarith), single, mul_neg_one, sub_eq_add_neg]
  · rw [mul_zero, add_zero]

theorem v2_value (room : Room dutycycles (deadtime / pwmPeriod)) (positive : 0 < deadtime / pwmPeriod) (i : Phase) :
    (compensateDeadtimeV2 dutycycles currents threshold pwmPeriod deadtime i).value =
      (dutycycles i).value + deadtime / pwmPeriod * (2 * shiftOf currents i) := by
  obtain ⟨-, double⟩ := share_value room positive
  obtain ⟨low, high⟩ := room i
  unfold compensateDeadtimeV2 shiftOf
  split_ifs with above there below there
  · rw [there] at low high ⊢
    rw [Function.update_self, plus_value (by linarith), double, mul_one, mul_two]
  · rw [Function.update_of_ne there, mul_zero, mul_zero, add_zero]
  · rw [there] at low high ⊢
    rw [Function.update_self, minus_value (by linarith), double]
    ring
  · rw [Function.update_of_ne there, mul_zero, mul_zero, add_zero]
  · rw [mul_zero, mul_zero, add_zero]

/-! ## Balanced currents -/

omit [IsStrictOrderedRing K] in
theorem signOf_above {current : K} (large : threshold < current) : signOf threshold current = 1 := if_pos large

theorem signOf_below {current : K} (nonneg : 0 ≤ threshold) (large : current < -threshold) :
    signOf threshold current = -1 := by
  rw [signOf, if_neg (by linarith), if_pos large]

theorem signOf_within {current : K} (small : |current| ≤ threshold) : signOf threshold current = 0 := by
  obtain ⟨low, high⟩ := abs_le.mp small
  rw [signOf, if_neg (not_lt.mpr high), if_neg (not_lt.mpr low)]

theorem third_phase (balanced : SinPwm.Balanced currents) {i p : Phase} (other : i ≠ p) :
    ∃ t, currents p + currents i + currents t = 0 := by
  obtain ⟨q, r, -, -, each, sum⟩ := others (K := K) p
  have total := sum currents balanced
  rcases each i other with rfl | rfl
  · exact ⟨r, total⟩
  · exact ⟨q, by linarith⟩

section Signs
variable (balanced : SinPwm.Balanced currents) (nonneg : 0 ≤ threshold) (large : ∀ i, threshold < |currents i|)
include balanced nonneg large

/-- Only the largest current is positive if it is larger than the smallest one. -/
theorem others_negative (positive : currents (minElement currents) + currents (maxElement currents) > 0) {i : Phase}
    (other : i ≠ maxElement currents) : currents i < -threshold := by
  obtain ⟨t, sum⟩ := third_phase balanced other
  rcases lt_abs.mp (large i) with above | below
  · have smallest := min_le currents t
    linarith
  · linarith

theorem others_positive (negative : currents (minElement currents) + currents (maxElement currents) < 0) {i : Phase}
    (other : i ≠ minElement currents) : threshold < currents i := by
  obtain ⟨t, sum⟩ := third_phase balanced other
  rcases lt_abs.mp (large i) with above | below
  · exact above
  · have largest := le_max currents t
    linarith

theorem not_opposite : currents (minElement currents) + currents (maxElement currents) ≠ 0 := by
  intro zero
  have none {i : Phase} (vanishes : currents i = 0) : False := by
    have above := large i
    rw [vanishes, abs_zero] at above
    exact absurd nonneg (not_le.mpr above)
  by_cases same : minElement currents = maxElement currents
  · rw [same] at zero
    exact none (by linarith)
  · obtain ⟨t, sum⟩ := third_phase balanced same
    exact none (i := t) (by linarith)

end Signs

/-- The corrections differ by an offset that the phases share. -/
def SameDifferences (currents : Phase → K) (threshold : K) : Prop :=
  ∀ i j, 2 * shiftOf currents i - signOf threshold (currents i) =
    2 * shiftOf currents j - signOf threshold (currents j)

theorem same_of_large (balanced : SinPwm.Balanced currents) (nonneg : 0 ≤ threshold)
    (large : ∀ i, threshold < |currents i|) : SameDifferences currents threshold := by
  rcases lt_trichotomy (currents (minElement currents) + currents (maxElement currents)) 0 with
    negative | zero | positive
  · have each (i : Phase) : 2 * shiftOf currents i - signOf threshold (currents i) = -1 := by
      rw [shiftOf, if_neg (not_lt.mpr negative.le), if_pos negative]
      split
      case isTrue lowest =>
        have below : currents i < -threshold := by
          rcases lt_abs.mp (large i) with above | below
          · rw [lowest] at above
            linarith [min_le currents (maxElement currents)]
          · linarith
        rw [signOf_below nonneg below]
        ring
      case isFalse other =>
        rw [signOf_above (others_positive balanced nonneg large negative other)]
        ring
    exact fun i j => (each i).trans (each j).symm
  · exact absurd zero (not_opposite balanced nonneg large)
  · have each (i : Phase) : 2 * shiftOf currents i - signOf threshold (currents i) = 1 := by
      rw [shiftOf, if_pos positive]
      split
      case isTrue highest =>
        have above : threshold < currents i := by
          rcases lt_abs.mp (large i) with above | below
          · exact above
          · rw [highest] at below
            linarith [min_le currents (maxElement currents)]
        rw [signOf_above above]
        ring
      case isFalse other =>
        rw [signOf_below nonneg (others_negative balanced nonneg large positive other)]
        ring
    exact fun i j => (each i).trans (each j).symm

theorem signOf_cases (threshold current : K) :
    signOf threshold current = 1 ∧ threshold < current ∨ signOf threshold current = -1 ∧ current < -threshold ∨
      signOf threshold current = 0 ∧ |current| ≤ threshold := by
  unfold signOf
  split_ifs with above below
  · exact .inl ⟨rfl, above⟩
  · exact .inr (.inl ⟨rfl, below⟩)
  · exact .inr (.inr ⟨rfl, abs_le.mpr ⟨not_lt.mp below, not_lt.mp above⟩⟩)

/-- Signs two apart are those of currents above the threshold. -/
theorem large_of_apart {high low : K} (apart : signOf threshold high - signOf threshold low = 2) :
    threshold < |high| ∧ threshold < |low| := by
  rcases signOf_cases threshold high with ⟨sign, above⟩ | ⟨sign, below⟩ | ⟨sign, within⟩ <;>
    rcases signOf_cases threshold low with ⟨other, above'⟩ | ⟨other, below'⟩ | ⟨other, within'⟩ <;>
    rw [sign, other] at apart <;> norm_num at apart
  exact ⟨lt_abs.mpr (.inl above), lt_abs.mpr (.inr (by linarith))⟩

theorem large_of_same (balanced : SinPwm.Balanced currents) (nonneg : 0 ≤ threshold)
    (same : SameDifferences currents threshold) :
    (∀ i, threshold < |currents i|) ∨
      (∀ i, |currents i| ≤ threshold) ∧ currents (minElement currents) + currents (maxElement currents) = 0 := by
  rcases lt_trichotomy (currents (minElement currents) + currents (maxElement currents)) 0 with
    negative | zero | positive
  · have apart (i : Phase) (other : i ≠ minElement currents) :
        signOf threshold (currents i) - signOf threshold (currents (minElement currents)) = 2 := by
      have difference := same i (minElement currents)
      simp only [shiftOf, if_neg (not_lt.mpr negative.le), if_pos negative, if_neg other, if_true] at difference
      linarith
    obtain ⟨q, -, differs, -⟩ := others (K := K) (minElement currents)
    refine .inl fun i => ?_
    by_cases there : i = minElement currents
    · rw [there]
      exact (large_of_apart (apart q differs)).2
    · exact (large_of_apart (apart i there)).1
  · have constant (i j : Phase) : signOf threshold (currents i) = signOf threshold (currents j) := by
      have difference := same i j
      simp only [shiftOf, zero, lt_irrefl, if_false] at difference
      linarith
    refine .inr ⟨fun i => ?_, zero⟩
    have sum : currents .a + currents .b + currents .c = 0 := balanced
    have a := signOf_cases threshold (currents .a)
    have b := signOf_cases threshold (currents .b)
    have c := signOf_cases threshold (currents .c)
    rw [constant .a i] at a
    rw [constant .b i] at b
    rw [constant .c i] at c
    rcases signOf_cases threshold (currents i) with ⟨sign, -⟩ | ⟨sign, -⟩ | ⟨-, within⟩
    · rw [sign] at a b c
      norm_num at a b c
      linarith
    · rw [sign] at a b c
      norm_num at a b c
      linarith
    · exact within
  · have apart (i : Phase) (other : i ≠ maxElement currents) :
        signOf threshold (currents (maxElement currents)) - signOf threshold (currents i) = 2 := by
      have difference := same i (maxElement currents)
      simp only [shiftOf, if_pos positive, if_neg other, if_true] at difference
      linarith
    obtain ⟨q, -, differs, -⟩ := others (K := K) (maxElement currents)
    refine .inl fun i => ?_
    by_cases there : i = maxElement currents
    · rw [there]
      exact (large_of_apart (apart q differs)).1
    · exact (large_of_apart (apart i there)).2

/-- With balanced currents, a positive dead time and duties far enough from the rails: the two compensations give
the load the same differences of duties if and only if all currents are above the threshold, or all are within
it and the largest is opposite to the smallest. -/
theorem compensations_agree_iff (balanced : SinPwm.Balanced currents) (nonneg : 0 ≤ threshold)
    (room : Room dutycycles (deadtime / pwmPeriod)) (positive : 0 < deadtime / pwmPeriod) :
    (∀ i j,
      (compensateDeadtimeV2 dutycycles currents threshold pwmPeriod deadtime i).value -
          (compensateDeadtimeV2 dutycycles currents threshold pwmPeriod deadtime j).value =
        (compensateDeadtimeV1 dutycycles currents threshold pwmPeriod deadtime i).value -
          (compensateDeadtimeV1 dutycycles currents threshold pwmPeriod deadtime j).value) ↔
      (∀ i, threshold < |currents i|) ∨
        (∀ i, |currents i| ≤ threshold) ∧ currents (minElement currents) + currents (maxElement currents) = 0 := by
  have differences :
      (∀ i j,
        (compensateDeadtimeV2 dutycycles currents threshold pwmPeriod deadtime i).value -
            (compensateDeadtimeV2 dutycycles currents threshold pwmPeriod deadtime j).value =
          (compensateDeadtimeV1 dutycycles currents threshold pwmPeriod deadtime i).value -
            (compensateDeadtimeV1 dutycycles currents threshold pwmPeriod deadtime j).value) ↔
        SameDifferences currents threshold := by
    refine forall_congr' fun i => forall_congr' fun j => ?_
    rw [v1_value room positive, v1_value room positive, v2_value room positive, v2_value room positive]
    constructor
    · intro equal
      apply mul_left_cancel₀ positive.ne'
      linarith
    · intro equal
      have scaled := congrArg (fun offset => deadtime / pwmPeriod * offset) equal
      linarith
  rw [differences]
  constructor
  · exact large_of_same balanced nonneg
  · rintro (large | ⟨within, zero⟩)
    · exact same_of_large balanced nonneg large
    · intro i j
      simp only [signOf_within (within _), shiftOf, zero, lt_irrefl, if_false]

/-! ## One positive current -/

def testingCurrents : Phase → ℚ := perPhase 2 (-1) (-1)

def testingDuties (_ : Phase) : UnsignedPu ℚ := .new (1 / 2)

theorem compensations_agree_iff_testing :
    Room testingDuties (1 / 8) ∧ ∀ i j,
      (compensateDeadtimeV2 testingDuties testingCurrents (1 / 2) 8 1 i).value -
          (compensateDeadtimeV2 testingDuties testingCurrents (1 / 2) 8 1 j).value =
        (compensateDeadtimeV1 testingDuties testingCurrents (1 / 2) 8 1 i).value -
          (compensateDeadtimeV1 testingDuties testingCurrents (1 / 2) 8 1 j).value := by
  have room : Room testingDuties (1 / 8) := by
    intro i
    rw [testingDuties, new_value (by norm_num) (by norm_num)]
    norm_num
  refine ⟨room, (compensations_agree_iff ?_ (by norm_num) room (by norm_num)).mpr (.inl fun i => ?_)⟩
  · norm_num [SinPwm.Balanced, testingCurrents, perPhase]
  · cases i <;> norm_num [testingCurrents, perPhase]

end Emblib.DeadtimeCompensation
