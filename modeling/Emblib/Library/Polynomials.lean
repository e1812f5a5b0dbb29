import Mathlib.Algebra.Order.Archimedean.Real.Basic
import Mathlib.Algebra.Order.Floor.Ring
import Mathlib.Data.Rat.Cast.Order
import Mathlib.Tactic.FieldSimp
import Mathlib.Tactic.Linarith
import Mathlib.Tactic.Ring

/-! Polynomials by their coefficients, the constant one first, and a bound over the unit interval that can be
computed: the interval is cut into parts, and around the centre of each the sizes of the coefficients
bound the polynomial. -/
namespace Emblib.Polynomials

section Ring
variable {K : Type} [CommRing K] {c t x : K}

def eval (p : List K) (x : K) : K := p.foldr (fun a rest => a + x * rest) 0

/-- The product with a linear factor, and a constant. -/
def timesLinear (c : K) : K → List K → List K
  | constant, [] => [constant]
  | constant, a :: p => (constant + c * a) :: timesLinear c a p

/-- The coefficients in the distance from a centre. -/
def recentre (c : K) (p : List K) : List K := p.foldr (timesLinear c) []

theorem eval_nil (x : K) : eval [] x = 0 := rfl

theorem eval_cons (a : K) (p : List K) (x : K) : eval (a :: p) x = a + x * eval p x := rfl

theorem eval_timesLinear (c t constant : K) (p : List K) :
    eval (timesLinear c constant p) t = constant + (c + t) * eval p t := by
  induction p generalizing constant with
  | nil => simp [timesLinear, eval_cons, eval_nil]
  | cons a p ih =>
    rw [timesLinear, eval_cons, ih, eval_cons]
    ring

theorem eval_recentre (c t : K) (p : List K) : eval (recentre c p) t = eval p (c + t) := by
  induction p with
  | nil => rfl
  | cons a p ih =>
    show eval (timesLinear c a (recentre c p)) t = _
    rw [eval_timesLinear, ih, eval_cons]

end Ring

/-! ## Bounds -/

section Order
variable {K : Type} [Field K] [LinearOrder K] [IsStrictOrderedRing K] {c t w x : K}

theorem abs_eval_le (p : List K) (near : |t| ≤ w) : |eval p t| ≤ eval (p.map abs) w := by
  induction p with
  | nil => simp [eval_nil]
  | cons a p ih =>
    rw [List.map_cons, eval_cons, eval_cons]
    apply (abs_add_le a (t * eval p t)).trans
    rw [abs_mul]
    exact add_le_add_right (mul_le_mul near ih (abs_nonneg _) ((abs_nonneg t).trans near)) |a|

def boundAround (p : List K) (c w : K) : K := eval ((recentre c p).map abs) w

theorem abs_le_around (p : List K) (near : |x - c| ≤ w) : |eval p x| ≤ boundAround p c w := by
  have whole : c + (x - c) = x := add_sub_cancel c x
  rw [← whole, ← eval_recentre]
  exact abs_eval_le _ near

end Order

/-! ## Rational coefficients -/

section Cast
variable {c w : ℚ}

theorem eval_cast (p : List ℚ) (x : ℚ) : eval (p.map Rat.cast) (x : ℝ) = (eval p x : ℚ) := by
  induction p with
  | nil => simp [eval_nil]
  | cons a p ih =>
    rw [List.map_cons, eval_cons, eval_cons, ih]
    push_cast
    rfl

theorem timesLinear_cast (c constant : ℚ) (p : List ℚ) :
    timesLinear (c : ℝ) constant (p.map Rat.cast) = (timesLinear c constant p).map Rat.cast := by
  induction p generalizing constant with
  | nil => rfl
  | cons a p ih => simp [timesLinear, ih]

theorem recentre_cast (c : ℚ) (p : List ℚ) :
    recentre (c : ℝ) (p.map Rat.cast) = (recentre c p).map Rat.cast := by
  induction p with
  | nil => rfl
  | cons a p ih =>
    show timesLinear (c : ℝ) a (recentre (c : ℝ) (p.map Rat.cast)) = _
    rw [ih, timesLinear_cast]
    rfl

theorem boundAround_cast (p : List ℚ) (c w : ℚ) :
    boundAround (p.map Rat.cast) (c : ℝ) w = (boundAround p c w : ℚ) := by
  have sizes (q : List ℚ) : (q.map Rat.cast).map abs = (q.map abs).map (Rat.cast : ℚ → ℝ) := by
    simp [List.map_map, Function.comp_def]
  unfold boundAround
  rw [recentre_cast, sizes, eval_cast]

/-- A bound over the unit interval from one for each of its parts. -/
theorem abs_le_of_parts {p : List ℚ} {bound : ℚ} {parts : Nat} (positive : 0 < parts)
    (each : ∀ i < parts, boundAround p ((2 * i + 1 : Nat) / (2 * parts : Nat)) (1 / (2 * parts : Nat)) ≤ bound)
    {x : ℝ} (nonneg : 0 ≤ x) (below : x < 1) : |eval (p.map Rat.cast) x| ≤ bound := by
  have partsPositive : (0 : ℝ) < parts := Nat.cast_pos.mpr positive
  have scaledNonneg : 0 ≤ x * parts := mul_nonneg nonneg partsPositive.le
  have low := Nat.floor_le scaledNonneg
  have high := Nat.lt_floor_add_one (x * parts)
  have inside : ⌊x * parts⌋₊ < parts := by
    rw [Nat.floor_lt scaledNonneg]
    exact mul_lt_of_lt_one_left partsPositive below
  have bounded := Rat.cast_le (K := ℝ) |>.mpr (each ⌊x * parts⌋₊ inside)
  rw [← boundAround_cast] at bounded
  refine (abs_le_around _ ?_).trans bounded
  generalize ⌊x * parts⌋₊ = i at low high
  push_cast
  have centre : x - (2 * (i : ℝ) + 1) / (2 * parts) = (2 * (x * parts) - (2 * i + 1)) / (2 * parts) := by
    field_simp
  have double : (0 : ℝ) < 2 * parts := mul_pos two_pos partsPositive
  rw [centre, abs_div, abs_of_pos double]
  apply div_le_div_of_nonneg_right _ double.le
  rw [abs_le]
  constructor <;> linarith

end Cast

end Emblib.Polynomials
