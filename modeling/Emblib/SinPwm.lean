import Emblib.Pwm

/-! Sinusoidal modulation as `calculate_sinpwm` does it: the phase voltages are scaled, and the duty
type clamps them at zero. The voltages have no offset and their sum is zero, so unless all of them
are zero the negative ones are lost. What is left has the voltages between the phases only where two
phases are equal, and then not by the same factor for each sign of the third one. -/
namespace Emblib.SinPwm
open Pwm
open DqControl (UnsignedPu SquareRoot realRoots)

variable {K : Type} [Field K] [LinearOrder K]

/-! ## `calculate_sinpwm` -/

/-- `vec_ab`. -/
structure VecAb (K : Type) where
  alpha : K
  beta : K

def invclarkeTransform (roots : SquareRoot K) (arg : VecAb K) : Phase → K :=
  perPhase arg.alpha ((-arg.alpha + roots.sqrt 3 * arg.beta) * (1 / 2))
    ((-arg.alpha - roots.sqrt 3 * arg.beta) * (1 / 2))

variable [IsStrictOrderedRing K]

def calculateSinpwm (roots : SquareRoot K) (Vs : VecAb K) (Vdc : K) : Phase → UnsignedPu K :=
  let voltages := invclarkeTransform roots Vs
  let voltageBase := Vdc / (3 / 2)
  fun i => .new (voltages i / voltageBase)

variable {roots : SquareRoot K} {Vs : VecAb K} {Vdc k : K} {V : Phase → K} {i p : Phase}

/-! ## Three phases with sum zero -/

def Balanced (V : Phase → K) : Prop := V .a + V .b + V .c = 0

theorem invclarke_balanced (roots : SquareRoot K) (Vs : VecAb K) :
    Balanced (invclarkeTransform roots Vs) := by
  unfold Balanced invclarkeTransform perPhase
  ring

/-- The two other phases. -/
theorem others (p : Phase) :
    ∃ q r, q ≠ p ∧ r ≠ p ∧ (∀ i, i ≠ p → i = q ∨ i = r) ∧
      ∀ V : Phase → K, Balanced V → V p + V q + V r = 0 := by
  cases p with
  | a =>
    refine ⟨.b, .c, nofun, nofun, ?_, fun V balanced => balanced⟩
    intro i other
    cases i <;> simp at other ⊢
  | b =>
    refine ⟨.c, .a, nofun, nofun, ?_, fun V balanced => ?_⟩
    · intro i other
      cases i <;> simp at other ⊢
    · unfold Balanced at balanced
      linarith
  | c =>
    refine ⟨.a, .b, nofun, nofun, ?_, fun V balanced => ?_⟩
    · intro i other
      cases i <;> simp at other ⊢
    · unfold Balanced at balanced
      linarith

theorem zero_of_nonneg (balanced : Balanced V) (nonneg : ∀ i, 0 ≤ V i) (i : Phase) : V i = 0 := by
  obtain ⟨q, r, _, _, _, sum⟩ := others (K := K) i
  have total := sum V balanced
  have first := nonneg i
  have second := nonneg q
  have third := nonneg r
  linarith

/-- All phases are zero, or one of them is alone with its sign. -/
theorem lone_phase (balanced : Balanced V) :
    (∀ i, V i = 0) ∨ (∃ p, 0 < V p ∧ ∀ i, i ≠ p → V i ≤ 0) ∨ ∃ p, V p < 0 ∧ ∀ i, i ≠ p → 0 < V i := by
  by_cases negative : ∃ p, V p < 0
  case neg => exact .inl (zero_of_nonneg balanced fun i => not_lt.mp fun below => negative ⟨i, below⟩)
  obtain ⟨p, below⟩ := negative
  obtain ⟨q, r, _, _, only, sum⟩ := others (K := K) p
  have total := sum V balanced
  have each {holds : Phase → Prop} (first : holds p) (second : holds q) (third : holds r) (i : Phase) :
      holds i := by
    by_cases here : i = p
    · exact here ▸ first
    · cases only i here with
      | inl same => exact same ▸ second
      | inr same => exact same ▸ third
  by_cases firstPos : 0 < V q
  · by_cases secondPos : 0 < V r
    · exact .inr (.inr ⟨p, below, each (absurd rfl) (fun _ => firstPos) fun _ => secondPos⟩)
    · have loses := not_lt.mp secondPos
      exact .inr (.inl ⟨q, firstPos, each (fun _ => below.le) (absurd rfl) fun _ => loses⟩)
  · have loses := not_lt.mp firstPos
    have secondPos : 0 < V r := by linarith
    exact .inr (.inl ⟨r, secondPos, each (fun _ => below.le) (fun _ => loses) (absurd rfl)⟩)

/-! ## The duties -/

theorem new_nonpos {v : K} (nonpos : v ≤ 0) : (UnsignedPu.new v).value = 0 := by
  cases nonpos.lt_or_eq with
  | inl negative => exact if_pos negative
  | inr zero =>
    rw [zero]
    exact new_value le_rfl zero_le_one

/-- Every phase voltage is within half of the supply voltage. -/
def Admissible (roots : SquareRoot K) (Vs : VecAb K) (Vdc : K) : Prop :=
  ∀ i, |invclarkeTransform roots Vs i| ≤ Vdc / 2

theorem duty_nonpos (positive : 0 < Vdc) (nonpos : invclarkeTransform roots Vs i ≤ 0) :
    (calculateSinpwm roots Vs Vdc i).value = 0 := by
  have base : 0 < Vdc / (3 / 2) := by positivity
  exact new_nonpos (div_nonpos_of_nonpos_of_nonneg nonpos base.le)

theorem duty_nonneg (positive : 0 < Vdc) (admissible : Admissible roots Vs Vdc)
    (nonneg : 0 ≤ invclarkeTransform roots Vs i) :
    (calculateSinpwm roots Vs Vdc i).value * Vdc = 3 / 2 * invclarkeTransform roots Vs i := by
  have base : 0 < Vdc / (3 / 2) := by positivity
  have small : invclarkeTransform roots Vs i / (Vdc / (3 / 2)) ≤ 1 := by
    rw [div_le_one base]
    have bound := (le_abs_self _).trans (admissible i)
    linarith
  have unclamped : (calculateSinpwm roots Vs Vdc i).value =
      invclarkeTransform roots Vs i / (Vdc / (3 / 2)) := new_value (div_nonneg nonneg base.le) small
  rw [unclamped]
  field_simp

/-! ## The voltages between the phases -/

/-- The duties differ as the phase voltages do, by this factor. -/
def Reproduces (roots : SquareRoot K) (Vs : VecAb K) (Vdc k : K) : Prop :=
  ∀ i j, (calculateSinpwm roots Vs Vdc i).value - (calculateSinpwm roots Vs Vdc j).value =
    k * (invclarkeTransform roots Vs i - invclarkeTransform roots Vs j) / Vdc

/-- The clamp changes no duty. -/
def Unclamped (roots : SquareRoot K) (Vs : VecAb K) (Vdc : K) : Prop :=
  ∀ i, (calculateSinpwm roots Vs Vdc i).value = invclarkeTransform roots Vs i / (Vdc / (3 / 2))

/-- The two other phases are equal: each has half of what the phase has, and the other sign. -/
def HalvedAround (V : Phase → K) (p : Phase) : Prop := ∀ i, i ≠ p → V i = -V p / 2

theorem reproduces_iff (positive : 0 < Vdc) : Reproduces roots Vs Vdc k ↔
    ∀ i j, ((calculateSinpwm roots Vs Vdc i).value - (calculateSinpwm roots Vs Vdc j).value) * Vdc =
      k * (invclarkeTransform roots Vs i - invclarkeTransform roots Vs j) :=
  forall₂_congr fun _ _ => eq_div_iff positive.ne'

/-- Duties that are the voltages above one level reproduce the voltages. -/
theorem reproduces_of_above (positive : 0 < Vdc) (level : K)
    (above : ∀ i, (calculateSinpwm roots Vs Vdc i).value * Vdc =
      k * (invclarkeTransform roots Vs i - level)) : Reproduces roots Vs Vdc k := by
  refine (reproduces_iff positive).mpr fun i j => ?_
  rw [sub_mul, above, above]
  ring

theorem reproduces_zero (positive : 0 < Vdc) (zero : ∀ i, invclarkeTransform roots Vs i = 0) :
    Reproduces roots Vs Vdc k := by
  apply reproduces_of_above positive 0
  intro i
  rw [duty_nonpos positive (zero i).le, zero]
  ring

theorem halved_of_equal (balanced : Balanced V) (equal : ∀ i j, i ≠ p → j ≠ p → V i = V j) :
    HalvedAround V p := by
  obtain ⟨q, r, notQ, notR, _, sum⟩ := others (K := K) p
  intro i other
  have total := sum V balanced
  have first := equal i q other notQ
  have second := equal i r other notR
  linarith

/-- Two negative phases have no duty: they must be equal, and the positive one decides the factor. -/
theorem reproduces_positive (positive : 0 < Vdc) (admissible : Admissible roots Vs Vdc) (factor : 0 < k)
    (above : 0 < invclarkeTransform roots Vs p)
    (below : ∀ i, i ≠ p → invclarkeTransform roots Vs i ≤ 0) :
    Reproduces roots Vs Vdc k ↔ k = 1 ∧ HalvedAround (invclarkeTransform roots Vs) p := by
  have duty := duty_nonneg positive admissible above.le
  constructor
  · intro reproduces
    have differences := (reproduces_iff positive).mp reproduces
    have halved : HalvedAround (invclarkeTransform roots Vs) p := by
      apply halved_of_equal (invclarke_balanced roots Vs)
      intro i j other also
      have equal := differences i j
      rw [duty_nonpos positive (below i other), duty_nonpos positive (below j also), sub_self, zero_mul,
        eq_comm, mul_eq_zero] at equal
      exact sub_eq_zero.mp (equal.resolve_left factor.ne')
    obtain ⟨q, _, notQ, _⟩ := others (K := K) p
    have scale := differences p q
    rw [duty_nonpos positive (below q notQ), sub_zero, duty, halved q notQ] at scale
    have one : (k - 1) * invclarkeTransform roots Vs p = 0 := by linarith
    exact ⟨sub_eq_zero.mp ((mul_eq_zero.mp one).resolve_right above.ne'), halved⟩
  · rintro ⟨rfl, halved⟩
    apply reproduces_of_above positive (-invclarkeTransform roots Vs p / 2)
    intro i
    by_cases here : i = p
    · rw [here, duty]
      ring
    · rw [duty_nonpos positive (below i here), halved i here]
      ring

/-- The negative phase has no duty: the sum of the others decides the factor, and then each of them
is decided. -/
theorem reproduces_negative (positive : 0 < Vdc) (admissible : Admissible roots Vs Vdc)
    (below : invclarkeTransform roots Vs p < 0)
    (above : ∀ i, i ≠ p → 0 < invclarkeTransform roots Vs i) :
    Reproduces roots Vs Vdc k ↔ k = 1 / 2 ∧ HalvedAround (invclarkeTransform roots Vs) p := by
  have duty := duty_nonpos positive below.le
  constructor
  · intro reproduces
    have scale (i : Phase) (other : i ≠ p) : 3 / 2 * invclarkeTransform roots Vs i =
        k * (invclarkeTransform roots Vs i - invclarkeTransform roots Vs p) := by
      have difference := (reproduces_iff positive).mp reproduces i p
      rwa [duty, sub_zero, duty_nonneg positive admissible (above i other).le] at difference
    obtain ⟨q, r, notQ, notR, _, sum⟩ := others (K := K) p
    have total := sum _ (invclarke_balanced roots Vs)
    have pair : invclarkeTransform roots Vs q + invclarkeTransform roots Vs r =
        -invclarkeTransform roots Vs p := by linarith
    have added : 3 / 2 * (invclarkeTransform roots Vs q + invclarkeTransform roots Vs r) =
        k * (invclarkeTransform roots Vs q + invclarkeTransform roots Vs r -
          2 * invclarkeTransform roots Vs p) := by linarith [scale q notQ, scale r notR]
    rw [pair] at added
    have half : (k - 1 / 2) * invclarkeTransform roots Vs p = 0 := by linarith
    have factor := sub_eq_zero.mp ((mul_eq_zero.mp half).resolve_right below.ne)
    refine ⟨factor, fun i other => ?_⟩
    have one := scale i other
    rw [factor] at one
    linarith
  · rintro ⟨rfl, halved⟩
    apply reproduces_of_above positive (invclarkeTransform roots Vs p)
    intro i
    by_cases here : i = p
    · rw [here, duty]
      ring
    · rw [duty_nonneg positive admissible (above i here).le, halved i here]
      ring

/-- All phases are zero; or two are equal, and the third one has the sign that the factor is for. -/
def Reproducible (V : Phase → K) (k : K) : Prop :=
  (∀ i, V i = 0) ∨ (k = 1 ∧ ∃ p, 0 < V p ∧ HalvedAround V p) ∨
    (k = 1 / 2 ∧ ∃ p, V p < 0 ∧ HalvedAround V p)

/-- The clamp is at work for all voltages but zero. -/
theorem unclamped_iff (positive : 0 < Vdc) :
    Unclamped roots Vs Vdc ↔ ∀ i, invclarkeTransform roots Vs i = 0 := by
  have base : 0 < Vdc / (3 / 2) := by positivity
  constructor
  · intro unclamped
    apply zero_of_nonneg (invclarke_balanced roots Vs)
    intro i
    have nonneg := (calculateSinpwm roots Vs Vdc i).nonneg
    rw [unclamped i] at nonneg
    have scaled := mul_nonneg nonneg base.le
    rwa [div_mul_cancel₀ _ base.ne'] at scaled
  · intro zero i
    rw [duty_nonpos positive (zero i).le, zero, zero_div]

/-- **The duties of `calculate_sinpwm` reproduce the voltages between the phases by a factor exactly
where all phases are zero, or two are equal and the factor is that of the third one's sign.** -/
theorem sinpwm_reproduces_iff (roots : SquareRoot K) (positive : 0 < Vdc)
    (admissible : Admissible roots Vs Vdc) (factor : 0 < k) :
    (Reproduces roots Vs Vdc k ↔ Reproducible (invclarkeTransform roots Vs) k) ∧
      (Unclamped roots Vs Vdc ↔ ∀ i, invclarkeTransform roots Vs i = 0) := by
  refine ⟨⟨fun reproduces => ?_, ?_⟩, unclamped_iff positive⟩
  · obtain zero | ⟨p, above, below⟩ | ⟨p, below, above⟩ := lone_phase (invclarke_balanced roots Vs)
    · exact .inl zero
    · obtain ⟨one, halved⟩ :=
        (reproduces_positive positive admissible factor above below).mp reproduces
      exact .inr (.inl ⟨one, p, above, halved⟩)
    · obtain ⟨half, halved⟩ := (reproduces_negative positive admissible below above).mp reproduces
      exact .inr (.inr ⟨half, p, below, halved⟩)
  · rintro (zero | ⟨one, p, above, halved⟩ | ⟨half, p, below, halved⟩)
    · exact reproduces_zero positive zero
    · refine (reproduces_positive positive admissible factor above fun i other => ?_).mpr ⟨one, halved⟩
      rw [halved i other]
      linarith
    · refine (reproduces_negative positive admissible below fun i other => ?_).mpr ⟨half, halved⟩
      rw [halved i other]
      linarith

/-! ## A vector that is not reproduced -/

/-- No voltage on the alpha axis: the phases are zero, positive and negative. -/
noncomputable def testingVector : VecAb ℝ := ⟨0, 1⟩

theorem testing_phases :
    invclarkeTransform realRoots testingVector = perPhase 0 (√3 / 2) (-(√3 / 2)) := by
  unfold invclarkeTransform testingVector realRoots
  congr 1
  · ring
  · ring

theorem testing_admissible : Admissible realRoots testingVector 4 := by
  have low : 0 ≤ √3 / 2 := by positivity
  have high : √3 / 2 ≤ 2 := by
    have root : √3 ≤ 4 := Real.sqrt_le_iff.mpr ⟨by norm_num, by norm_num⟩
    linarith
  intro i
  rw [testing_phases]
  cases i with
  | a => norm_num [perPhase]
  | b =>
    rw [perPhase, abs_of_nonneg low]
    linarith
  | c =>
    rw [perPhase, abs_neg, abs_of_nonneg low]
    linarith

/-- The zero phase and the negative one have the same duty, so no factor fits. -/
theorem no_factor_reproduces :
    ¬∃ k : ℝ, 0 < k ∧ ∀ Vs Vdc, 0 < Vdc → Admissible realRoots Vs Vdc → Reproduces realRoots Vs Vdc k := by
  rintro ⟨k, factor, all⟩
  have root : 0 < √3 / 2 := by positivity
  have zero : invclarkeTransform realRoots testingVector .a = 0 := congrFun testing_phases .a
  have negative : invclarkeTransform realRoots testingVector .c = -(√3 / 2) := congrFun testing_phases .c
  have same := (reproduces_iff four_pos).mp (all testingVector 4 four_pos testing_admissible) .a .c
  rw [duty_nonpos four_pos zero.le, duty_nonpos four_pos (by linarith), zero, negative, sub_self,
    zero_mul, zero_sub, neg_neg] at same
  exact (mul_pos factor root).ne same

theorem sinpwm_reproduces_iff_testing :
    (Reproduces realRoots testingVector 4 1 ↔
        Reproducible (invclarkeTransform realRoots testingVector) 1) ∧
      (Unclamped realRoots testingVector 4 ↔
        ∀ i, invclarkeTransform realRoots testingVector i = 0) :=
  sinpwm_reproduces_iff realRoots four_pos testing_admissible one_pos

end Emblib.SinPwm
