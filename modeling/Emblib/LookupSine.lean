import Mathlib.Analysis.Real.Pi.Bounds
import Emblib.Angle
import Emblib.Pwm
import Emblib.Library.Phasor

/-! The sine of a constant expression. The angle is reduced to a quarter of a turn by a conversion to an
integer, and the quarter to a table with 128 steps; from the entries behind and ahead of the angle and the
first terms of two series an addition theorem gives the sine. -/
namespace Emblib.LookupSine
open Angle Integers Numbers Phasor
open Real (pi sin cos)

/-! ## `trigonometric.hpp` -/

def sincosLookupTable : List ℚ := [
  0.0, 0.012271538285719931, 0.024541228522912288, 0.036807222941358832, 0.049067674327418015, 0.061320736302208578,
  0.073564563599667426, 0.085797312344439894, 0.098017140329560604, 0.11022220729388306, 0.1224106751992162,
  0.13458070850712617, 0.14673047445536175, 0.15885814333386145, 0.17096188876030122, 0.18303988795514095,
  0.19509032201612825, 0.20711137619221856, 0.2191012401568698, 0.23105810828067111, 0.24298017990326387,
  0.25486565960451457, 0.26671275747489837, 0.27851968938505306, 0.29028467725446233, 0.30200594931922808,
  0.31368174039889152, 0.32531029216226293, 0.33688985339222005, 0.34841868024943456, 0.35989503653498811,
  0.37131719395183754, 0.38268343236508978, 0.3939920400610481, 0.40524131400498986, 0.41642956009763715,
  0.42755509343028208, 0.43861623853852766, 0.44961132965460654, 0.46053871095824001, 0.47139673682599764,
  0.48218377207912272, 0.49289819222978404, 0.50353838372571758, 0.51410274419322166, 0.52458968267846895,
  0.53499761988709715, 0.54532498842204646, 0.55557023301960218, 0.56573181078361312, 0.57580819141784534,
  0.58579785745643886, 0.59569930449243336, 0.60551104140432555, 0.61523159058062682, 0.62485948814238634,
  0.63439328416364549, 0.64383154288979139, 0.65317284295377676, 0.66241577759017178, 0.67155895484701833,
  0.68060099779545302, 0.68954054473706683, 0.69837624940897292, 0.70710678118654746, 0.71573082528381859,
  0.72424708295146689, 0.73265427167241282, 0.74095112535495911, 0.74913639452345926, 0.75720884650648446,
  0.76516726562245896, 0.77301045336273699, 0.78073722857209438, 0.78834642762660623, 0.79583690460888346,
  0.80320753148064483, 0.81045719825259477, 0.81758481315158371, 0.82458930278502529, 0.83146961230254524,
  0.83822470555483797, 0.84485356524970712, 0.8513551931052652, 0.85772861000027212, 0.8639728561215867,
  0.87008699110871135, 0.8760700941954066, 0.88192126434835494, 0.88763962040285393, 0.89322430119551532,
  0.89867446569395382, 0.90398929312344334, 0.90916798309052238, 0.91420975570353069, 0.91911385169005777,
  0.92387953251128674, 0.92850608047321548, 0.93299279883473885, 0.93733901191257485, 0.94154406518302081,
  0.94560732538052128, 0.94952818059303667, 0.95330604035419375, 0.95694033573220894, 0.96043051941556579,
  0.96377606579543984, 0.96697647104485207, 0.97003125319454397, 0.97293995220556007, 0.97570213003852857,
  0.97831737071962765, 0.98078528040323043, 0.98310548743121629, 0.98527764238894122, 0.98730141815785843,
  0.98917650996478101, 0.99090263542778001, 0.99247953459870997, 0.99390697000235606, 0.99518472667219682,
  0.996312612182778, 0.99729045667869021, 0.99811811290014918, 0.99879545620517241, 0.99932238458834954,
  0.99969881869620425, 0.9999247018391445, 1.0]

def sizeT : IntType := ⟨64, false, longLong_bits⟩

section Code
variable {K : Type} [Field K] [LinearOrder K] [FloorRing K]

/-- The entry with this index. -/
def entry (index : Int) : Option K := sincosLookupTable[index.toNat]?.map Rat.cast

/-- What follows the reduction to a quarter. -/
def interpolate (negative : Bool) (x : K) : Option K := do
  let z := x * 128
  let zf ← toInteger sizeT z
  let z := z - zf.val
  let sint ← entry zf.val
  let cost ← entry (128 - zf.val)
  let zz := z * z
  let ss := z * (0.012271846303085128928 +
    zz * (-3.0801968454884792651e-7 + 2.3193461291439683491e-12 * zz))
  let cc := 1 - zz * (0.000075299105843272081 +
    zz * (-9.449925567834354484e-10 + 4.7437807891647010749e-15 * zz))
  return if negative then -sint * cc - cost * ss else sint * cc + cost * ss

/-- `lookup_sin`, for a value of the constant. -/
def lookupSin (pi x : K) : Option K := do
  let x := x / (pi / 2)
  let sign := decide (x < 0)
  let x := if sign then -x else x
  let xf ← toInteger int32 x
  let x := x - xf.val
  let rev := xf.val.toNat &&& 1 = 1
  let x := if rev then 1 - x else x
  let per := decide ((xf.val.toNat >>> 1) &&& 1 = 1)
  interpolate (sign ^^ per) x

def lookupCos (pi x : K) : Option K := lookupSin pi (x + pi / 2)

end Code

/-! ## The table -/

/-- An entry of the table and the one as far from its end. -/
def tableAt (k : Nat) : ℚ × ℚ := (sincosLookupTable.getD (128 - k) 0, sincosLookupTable.getD k 0)

/-- Each entry follows from the one before by an addition theorem. -/
theorem table_steps : ∀ k < 128,
    |(tableAt (k + 1)).1 - ((tableAt k).1 * (tableAt 1).1 - (tableAt k).2 * (tableAt 1).2)| ≤ 2 / 10 ^ 16 ∧
      |(tableAt (k + 1)).2 - ((tableAt k).1 * (tableAt 1).2 + (tableAt k).2 * (tableAt 1).1)| ≤ 2 / 10 ^ 16 := by
  decide +kernel

/-- The table as points of the unit circle. -/
noncomputable def point (k : Nat) : ℂ := ⟨(tableAt k).1, (tableAt k).2⟩

/-- The step of the table: a quarter of a turn in 128 parts, and a decimal number near it. -/
noncomputable def step : ℝ := pi / 256

def decimalStep : ℝ := 0.012271846303085129838

theorem step_near : |step - decimalStep| ≤ 1 / 10 ^ 18 := by
  have low := Real.pi_gt_d20
  have high := Real.pi_lt_d20
  unfold step decimalStep
  rw [abs_le]
  constructor
  · norm_num at low ⊢
    linarith
  · norm_num at high ⊢
    linarith

theorem norm_le_of_components {z : ℂ} {first second : ℝ} (re : |z.re| ≤ first) (im : |z.im| ≤ second) :
    ‖z‖ ≤ first + second := (Complex.norm_le_abs_re_add_abs_im z).trans (add_le_add re im)

theorem point_steps : ∀ k < 128, ‖point (k + 1) - point k * point 1‖ ≤ 4 / 10 ^ 16 := by
  intro k inside
  obtain ⟨cosine, sine⟩ := table_steps k inside
  have first := Rat.cast_le (K := ℝ) |>.mpr cosine
  have second := Rat.cast_le (K := ℝ) |>.mpr sine
  push_cast at first second
  refine (norm_le_of_components first second).trans ?_
  norm_num

theorem taylor_decimal : ‖Complex.exp (decimalStep * Complex.I) - taylor decimalStep‖ ≤ 1 / 10 ^ 16 := by
  refine (exp_taylor ?_).trans ?_
  · norm_num [decimalStep, abs_le]
  · rw [abs_of_nonneg (by norm_num [decimalStep])]
    norm_num [decimalStep]

theorem point_first : ‖point 1 - Complex.exp (step * Complex.I)‖ ≤ 1 / 10 ^ 15 := by
  have entries : tableAt 1 = (0.9999247018391445, 0.012271538285719931) := rfl
  have decimals : ‖point 1 - taylor decimalStep‖ ≤ 2 / 10 ^ 16 + 2 / 10 ^ 16 := by
    rw [taylor_components]
    apply norm_le_of_components
    · show |((tableAt 1).1 : ℝ) - (1 - decimalStep ^ 2 / 2 + decimalStep ^ 4 / 24 - decimalStep ^ 6 / 720)| ≤ _
      rw [entries]
      norm_num [decimalStep, abs_le]
    · show |((tableAt 1).2 : ℝ) - (decimalStep - decimalStep ^ 3 / 6 + decimalStep ^ 5 / 120)| ≤ _
      rw [entries]
      norm_num [decimalStep, abs_le]
  have angles := (exp_near step decimalStep).trans step_near
  have series := taylor_decimal
  rw [norm_sub_rev] at angles series
  have sum := norm_add₃_le (a := point 1 - taylor decimalStep)
    (b := taylor decimalStep - Complex.exp (decimalStep * Complex.I))
    (c := Complex.exp (decimalStep * Complex.I) - Complex.exp (step * Complex.I))
  have parts : point 1 - Complex.exp (step * Complex.I) = point 1 - taylor decimalStep +
      (taylor decimalStep - Complex.exp (decimalStep * Complex.I)) +
      (Complex.exp (decimalStep * Complex.I) - Complex.exp (step * Complex.I)) := by ring
  rw [parts]
  linarith

theorem point_zero : point 0 = 1 := by
  have entries : tableAt 0 = (1.0, 0.0) := rfl
  unfold point
  rw [entries]
  norm_num [Complex.ext_iff]

theorem point_last : point 128 = Complex.I := by
  have entries : tableAt 128 = (0.0, 1.0) := rfl
  unfold point
  rw [entries]
  norm_num [Complex.ext_iff]

theorem point_near {k : Nat} (inside : k ≤ 128) :
    ‖point k - Complex.exp ((k * step : ℝ) * Complex.I)‖ ≤ 4 / 10 ^ 13 := by
  have powers := powers_near (Complex.norm_exp_ofReal_mul_I step) point_zero point_steps point_first
    (by norm_num) inside
  have power : Complex.exp (step * Complex.I) ^ k = Complex.exp ((k * step : ℝ) * Complex.I) := by
    rw [← Complex.exp_nat_mul]
    push_cast
    ring_nf
  rw [← power]
  apply powers.trans
  have bound : (k : ℝ) ≤ 128 := by exact_mod_cast inside
  norm_num
  linarith

/-! ## Between the entries -/

/-- The two series of the code. -/
def series (z : ℝ) : ℂ :=
  let zz := z * z
  ⟨1 - zz * (0.000075299105843272081 + zz * (-9.449925567834354484e-10 + 4.7437807891647010749e-15 * zz)),
    z * (0.012271846303085128928 + zz * (-3.0801968454884792651e-7 + 2.3193461291439683491e-12 * zz))⟩

theorem terms_le (bound : ℝ) {z d e f : ℝ} (nonneg : 0 ≤ z) (below : z ≤ 1) (first : |d| ≤ bound) (second : |e| ≤ bound)
    (third : |f| ≤ bound) (i j k : Nat) : |d * z ^ i + e * z ^ j + f * z ^ k| ≤ 3 * bound := by
  have term {c : ℝ} (coefficient : |c| ≤ bound) (n : Nat) : |c * z ^ n| ≤ bound := by
    rw [abs_mul, abs_of_nonneg (pow_nonneg nonneg n)]
    exact (mul_le_of_le_one_right (abs_nonneg c) (pow_le_one₀ nonneg below)).trans coefficient
  have sum := abs_add_three (d * z ^ i) (e * z ^ j) (f * z ^ k)
  linarith [term first i, term second j, term third k]

/-- The coefficients are those of the exponential. -/
theorem series_taylor {z : ℝ} (nonneg : 0 ≤ z) (below : z ≤ 1) :
    ‖series z - taylor (z * decimalStep)‖ ≤ 3 / 10 ^ 17 + 6 / 10 ^ 17 := by
  apply norm_le_of_components
  · have parts : (series z - taylor (z * decimalStep)).re =
        (decimalStep ^ 2 / 2 - 0.000075299105843272081) * z ^ 2 +
          (9.449925567834354484e-10 - decimalStep ^ 4 / 24) * z ^ 4 +
          (decimalStep ^ 6 / 720 - 4.7437807891647010749e-15) * z ^ 6 := by
      simp only [series, taylor_components, Complex.sub_re]
      ring
    rw [parts]
    refine (terms_le (1 / 10 ^ 17) nonneg below ?_ ?_ ?_ 2 4 6).trans_eq (by norm_num)
    all_goals norm_num [decimalStep, abs_le]
  · have parts : (series z - taylor (z * decimalStep)).im =
        (0.012271846303085128928 - decimalStep) * z ^ 1 +
          (decimalStep ^ 3 / 6 - 3.0801968454884792651e-7) * z ^ 3 +
          (2.3193461291439683491e-12 - decimalStep ^ 5 / 120) * z ^ 5 := by
      simp only [series, taylor_components, Complex.sub_im]
      ring
    rw [parts]
    refine (terms_le (2 / 10 ^ 17) nonneg below ?_ ?_ ?_ 1 3 5).trans_eq (by norm_num)
    all_goals norm_num [decimalStep, abs_le]

theorem series_near {z : ℝ} (nonneg : 0 ≤ z) (below : z ≤ 1) :
    ‖series z - Complex.exp ((z * step : ℝ) * Complex.I)‖ ≤ 1 / 10 ^ 15 := by
  have positive : (0 : ℝ) ≤ decimalStep := by norm_num [decimalStep]
  have scaled : |z * decimalStep| ≤ decimalStep := by
    rw [abs_of_nonneg (mul_nonneg nonneg positive)]
    exact mul_le_of_le_one_left positive below
  have exponential : ‖Complex.exp ((z * decimalStep : ℝ) * Complex.I) - taylor (z * decimalStep)‖ ≤ 1 / 10 ^ 16 := by
    apply (exp_taylor (scaled.trans (by norm_num [decimalStep]))).trans
    have seventh := pow_le_pow_left₀ (abs_nonneg _) scaled 7
    have bound : decimalStep ^ 7 / 4410 ≤ 1 / 10 ^ 16 := by norm_num [decimalStep]
    linarith
  have angles : ‖Complex.exp ((z * step : ℝ) * Complex.I) - Complex.exp ((z * decimalStep : ℝ) * Complex.I)‖ ≤
      1 / 10 ^ 18 := by
    apply (exp_near _ _).trans
    rw [← mul_sub, abs_mul, abs_of_nonneg nonneg]
    exact (mul_le_of_le_one_left (abs_nonneg _) below).trans step_near
  rw [norm_sub_rev] at exponential angles
  have sum := norm_add₃_le (a := series z - taylor (z * decimalStep))
    (b := taylor (z * decimalStep) - Complex.exp ((z * decimalStep : ℝ) * Complex.I))
    (c := Complex.exp ((z * decimalStep : ℝ) * Complex.I) - Complex.exp ((z * step : ℝ) * Complex.I))
  rw [sub_add_sub_cancel, sub_add_sub_cancel] at sum
  linarith [series_taylor nonneg below]

/-- The sine between two entries, by the addition theorem. -/
noncomputable def between (k : Nat) (z : ℝ) : ℝ := (point k * series z).im

theorem series_zero : series 0 = 1 := by
  norm_num [series, Complex.ext_iff]

theorem between_near {k : Nat} {z : ℝ} (inside : k ≤ 128) (nonneg : 0 ≤ z) (below : z ≤ 1) :
    |between k z - sin ((k + z) * step)| ≤ 1 / 10 ^ 12 := by
  have length := Complex.norm_exp_ofReal_mul_I (k * step)
  have near := series_near nonneg below
  have bounded : ‖series z‖ ≤ 2 := by
    have size := norm_le_norm_add_norm_sub' (series z) (Complex.exp ((z * step : ℝ) * Complex.I))
    rw [Complex.norm_exp_ofReal_mul_I] at size
    linarith
  have product := product_near bounded length (point_near inside) near
  have sum : Complex.exp ((k * step : ℝ) * Complex.I) * Complex.exp ((z * step : ℝ) * Complex.I) =
      Complex.exp (((k + z) * step : ℝ) * Complex.I) := by
    rw [← Complex.exp_add]
    push_cast
    ring_nf
  rw [sum] at product
  have part := (Complex.abs_im_le_norm _).trans product
  rw [Complex.sub_im, Complex.exp_ofReal_mul_I_im] at part
  exact part.trans (by norm_num)

/-! ## A quarter of a turn -/

theorem toInteger_floor {type : IntType} {x : ℝ} (nonneg : 0 ≤ x) (fits : Fits type ⌊x⌋) :
    toInteger type x = some ⟨⌊x⌋, fits⟩ := by
  have truncated : truncate x = ⌊x⌋ := truncate_floor nonneg
  unfold toInteger
  simp [truncated, fits]

theorem table_length : sincosLookupTable.length = 129 := by
  decide +kernel

theorem entry_eq {k : Nat} (inside : k ≤ 128) : (entry (k : ℤ) : Option ℝ) = some ((tableAt k).2 : ℝ) := by
  have bound : k < sincosLookupTable.length := table_length ▸ Nat.lt_succ_of_le inside
  show (sincosLookupTable[k]?).map Rat.cast = some ((sincosLookupTable.getD k 0 : ℚ) : ℝ)
  rw [List.getD_eq_getElem?_getD, List.getElem?_eq_getElem bound]
  rfl

/-- The index of a part of a quarter. -/
theorem index_of_part {x : ℝ} (nonneg : 0 ≤ x) (below : x ≤ 1) :
    ∃ k : Nat, ⌊x * 128⌋ = k ∧ k ≤ 128 ∧ k ≤ x * 128 ∧ x * 128 < k + 1 := by
  obtain ⟨k, floor⟩ : ∃ k : Nat, ⌊x * 128⌋ = k := Int.eq_ofNat_of_zero_le (Int.floor_nonneg.mpr (by positivity))
  have low : (k : ℝ) ≤ x * 128 := by
    have fact := Int.floor_le (x * 128)
    rw [floor] at fact
    exact_mod_cast fact
  have high : x * 128 < k + 1 := by
    have fact := Int.lt_floor_add_one (x * 128)
    rw [floor] at fact
    exact_mod_cast fact
  have bound : (k : ℝ) ≤ 128 := by linarith
  exact ⟨k, floor, by exact_mod_cast bound, low, high⟩

theorem between_components (k : Nat) (z : ℝ) :
    between k z = (tableAt k).2 * (1 - z * z * (0.000075299105843272081 +
      z * z * (-9.449925567834354484e-10 + 4.7437807891647010749e-15 * (z * z)))) +
      (tableAt (128 - k)).2 * (z * (0.012271846303085128928 +
        z * z * (-3.0801968454884792651e-7 + 2.3193461291439683491e-12 * (z * z)))) := by
  unfold between
  rw [Complex.mul_im]
  exact add_comm _ _

/-- The interpolation of a part of a quarter, for both signs. -/
theorem interpolate_eq (negative : Bool) {x : ℝ} {k : Nat} (nonneg : 0 ≤ x) (floor : ⌊x * 128⌋ = k)
    (inside : k ≤ 128) :
    interpolate negative x = some (if negative then -between k (x * 128 - k) else between k (x * 128 - k)) := by
  have fits : Fits sizeT ⌊x * 128⌋ := by
    rw [floor]
    constructor
    · show (0 : ℤ) ≤ k
      omega
    · show (k : ℤ) < 0 + 2 ^ 64
      omega
  have opposite : (128 : ℤ) - k = (128 - k : Nat) := by omega
  unfold interpolate
  dsimp only
  rw [toInteger_floor (by positivity) fits]
  simp only [Option.bind_eq_bind, Option.bind_some, floor, opposite, entry_eq inside,
    entry_eq (Nat.sub_le 128 k), Int.cast_natCast]
  generalize x * 128 - (k : ℝ) = z
  apply congrArg some
  rw [between_components]
  cases negative with
  | false => rfl
  | true =>
    simp only [if_true]
    ring

theorem interpolate_near {x : ℝ} (nonneg : 0 ≤ x) (below : x ≤ 1) :
    ∃ s, (∀ negative, interpolate negative x = some (if negative then -s else s)) ∧
      |s - sin (x * (pi / 2))| ≤ 1 / 10 ^ 12 ∧ (x = 0 → s = 0) ∧ (x = 1 → s = 1) := by
  obtain ⟨k, floor, inside, low, high⟩ := index_of_part nonneg below
  refine ⟨between k (x * 128 - k), fun negative => interpolate_eq negative nonneg floor inside, ?_, ?_, ?_⟩
  · have near := between_near inside (by linarith : 0 ≤ x * 128 - k) (by linarith)
    have angle : (k + (x * 128 - k)) * step = x * (pi / 2) := by
      unfold step
      ring
    rwa [angle] at near
  · rintro rfl
    have zero : k = 0 := by
      rw [zero_mul] at low
      exact_mod_cast le_antisymm low (Nat.cast_nonneg k)
    rw [zero, Nat.cast_zero, zero_mul, sub_zero, between, point_zero, series_zero]
    norm_num
  · rintro rfl
    have last : k = 128 := by
      rw [one_mul] at high
      have above : 128 < k + 1 := by exact_mod_cast high
      omega
    rw [last]
    norm_num [between, point_last, series_zero]

/-! ## All angles -/

/-- The part of a quarter that stands for an angle, and the sign of its sine. -/
noncomputable def reduced (n : Nat) (part : ℝ) : ℝ := if n % 2 = 1 then 1 - part else part

theorem sin_reduced (n : Nat) (part : ℝ) :
    sin ((n + part) * (pi / 2)) = (-1) ^ (n / 2) * sin (reduced n part * (pi / 2)) := by
  have halves : (n : ℝ) = (n % 2 : Nat) + 2 * (n / 2 : Nat) := by exact_mod_cast (Nat.mod_add_div n 2).symm
  have turned : (n + part) * (pi / 2) = ((n % 2 : Nat) + part) * (pi / 2) + (n / 2 : Nat) * pi := by
    rw [halves]
    ring
  rw [turned, Real.sin_add_nat_mul_pi]
  congr 1
  rcases Nat.mod_two_eq_zero_or_one n with even | odd
  · rw [reduced, even, if_neg (by decide), Nat.cast_zero, zero_add]
  · have mirrored : ((1 : Nat) + part) * (pi / 2) = pi - (1 - part) * (pi / 2) := by
      push_cast
      ring
    rw [reduced, odd, if_pos rfl, mirrored, Real.sin_pi_sub]

theorem reduced_inside (n : Nat) {part : ℝ} (nonneg : 0 ≤ part) (below : part < 1) :
    0 ≤ reduced n part ∧ reduced n part ≤ 1 := by
  unfold reduced
  split
  · constructor <;> linarith
  · exact ⟨nonneg, below.le⟩

/-- Whether the sine changes its sign. -/
noncomputable def changes (x : ℝ) (n : Nat) : Bool := decide (x < 0) ^^ decide (n / 2 % 2 = 1)

theorem half_turn_pos : 0 < pi / 2 := div_pos Real.pi_pos two_pos

theorem quarters_neg (x : ℝ) : x / (pi / 2) < 0 ↔ x < 0 := by
  rw [div_lt_iff₀ half_turn_pos, zero_mul]

/-- The absolute value, as the code takes it. -/
theorem quarters_abs (x : ℝ) :
    (if decide (x / (pi / 2) < 0) = true then -(x / (pi / 2)) else x / (pi / 2)) = |x| / (pi / 2) := by
  have sign := quarters_neg x
  by_cases negative : x < 0
  · rw [if_pos (decide_eq_true (sign.mpr negative)), abs_of_neg negative, neg_div]
  · rw [if_neg (by simpa using not_lt.mp (sign.not.mpr negative)), abs_of_nonneg (not_lt.mp negative)]

/-- The reduction of the code, where the conversion to an integer is defined. -/
theorem lookupSin_reduced {x : ℝ} {n : Nat} {part : ℝ} (quarters : |x| = (n + part) * (pi / 2)) (nonneg : 0 ≤ part)
    (below : part < 1) (small : n < 2 ^ 31) :
    lookupSin pi x = interpolate (changes x n) (reduced n part) := by
  have absolute : |x| / (pi / 2) = n + part := by rw [quarters, mul_div_cancel_right₀ _ half_turn_pos.ne']
  have floor : ⌊(n : ℝ) + part⌋ = n := by
    rw [Int.floor_natCast_add, Int.floor_eq_zero_iff.mpr ⟨nonneg, below⟩, add_zero]
  have fits : Fits int32 ⌊(n : ℝ) + part⌋ := by
    rw [floor]
    constructor
    · show -2 ^ 31 ≤ (n : ℤ)
      omega
    · show (n : ℤ) < -2 ^ 31 + 2 ^ 32
      omega
  have sign : decide (x / (pi / 2) < 0) = decide (x < 0) := decide_eq_decide.mpr (quarters_neg x)
  unfold lookupSin
  dsimp only
  rw [quarters_abs, absolute, toInteger_floor (by positivity) fits, sign]
  simp only [Option.bind_eq_bind, Option.bind_some, floor, Int.toNat_natCast, Int.cast_natCast,
    add_sub_cancel_left, Nat.and_one_is_mod, Nat.shiftRight_eq_div_pow, pow_one]
  rfl

theorem sin_changes {x : ℝ} {n : Nat} {part : ℝ} (quarters : |x| = (n + part) * (pi / 2)) :
    sin x = if changes x n then -sin (reduced n part * (pi / 2)) else sin (reduced n part * (pi / 2)) := by
  have absolute : sin |x| = (-1) ^ (n / 2) * sin (reduced n part * (pi / 2)) := by rw [quarters, sin_reduced]
  have sign : sin x = if x < 0 then -sin |x| else sin |x| := by
    split
    · rw [abs_of_neg ‹_›, Real.sin_neg, neg_neg]
    · rw [abs_of_nonneg (not_lt.mp ‹_›)]
  rw [sign, absolute, changes]
  rcases Nat.mod_two_eq_zero_or_one (n / 2) with even | odd
  · rw [even, Even.neg_one_pow (Nat.even_iff.mpr even), one_mul]
    by_cases negative : x < 0 <;> simp [negative]
  · rw [odd, Odd.neg_one_pow (Nat.odd_iff.mpr odd), neg_one_mul, neg_neg]
    by_cases negative : x < 0 <;> simp [negative]

theorem lookupSin_undefined {x : ℝ} (large : 2 ^ 31 * (pi / 2) ≤ |x|) : lookupSin pi x = none := by
  have quarters : (2 ^ 31 : ℤ) ≤ |x| / (pi / 2) := by
    rw [le_div_iff₀ half_turn_pos]
    exact_mod_cast large
  have nonneg : 0 ≤ |x| / (pi / 2) := div_nonneg (abs_nonneg x) half_turn_pos.le
  have truncated : truncate (|x| / (pi / 2)) = ⌊|x| / (pi / 2)⌋ := truncate_floor nonneg
  have outside : ¬Fits int32 (truncate (|x| / (pi / 2))) := by
    rintro ⟨-, below⟩
    rw [truncated] at below
    have above : 2 ^ 31 ≤ ⌊|x| / (pi / 2)⌋ := Int.le_floor.mpr quarters
    have upper : int32.upper = 2 ^ 31 := rfl
    omega
  unfold lookupSin
  dsimp only
  rw [quarters_abs, toInteger, dif_neg outside]
  rfl

/-- The quarters of an angle. -/
theorem exists_quarters {x : ℝ} (small : |x| < 2 ^ 31 * (pi / 2)) :
    ∃ (n : Nat) (part : ℝ), |x| = (n + part) * (pi / 2) ∧ 0 ≤ part ∧ part < 1 ∧ n < 2 ^ 31 := by
  have nonneg : 0 ≤ |x| / (pi / 2) := div_nonneg (abs_nonneg x) half_turn_pos.le
  have bound : |x| / (pi / 2) < 2 ^ 31 := (div_lt_iff₀ half_turn_pos).mpr small
  refine ⟨⌊|x| / (pi / 2)⌋₊, |x| / (pi / 2) - ⌊|x| / (pi / 2)⌋₊, ?_, ?_, ?_, ?_⟩
  · rw [add_sub_cancel, div_mul_cancel₀ _ half_turn_pos.ne']
  · exact sub_nonneg.mpr (Nat.floor_le nonneg)
  · exact sub_lt_iff_lt_add'.mpr (Nat.lt_floor_add_one _)
  · rw [Nat.floor_lt nonneg]
    exact_mod_cast bound

theorem lookupSin_near {x : ℝ} (small : |x| < 2 ^ 31 * (pi / 2)) :
    ∃ s, lookupSin pi x = some s ∧ |s - sin x| ≤ 1 / 10 ^ 12 := by
  obtain ⟨n, part, quarters, nonneg, below, inside⟩ := exists_quarters small
  obtain ⟨low, high⟩ := reduced_inside n nonneg below
  obtain ⟨s, value, near, -⟩ := interpolate_near low high
  refine ⟨_, (lookupSin_reduced quarters nonneg below inside).trans (value _), ?_⟩
  rw [sin_changes quarters]
  cases changes x n with
  | false => exact near
  | true =>
    simp only [if_true]
    rwa [neg_sub_neg, abs_sub_comm]

/-- No error at whole quarters. -/
theorem lookupSin_quarters {k : ℤ} (small : |k| < 2 ^ 31) :
    lookupSin pi (k * (pi / 2)) = some (sin (k * (pi / 2))) := by
  have quarters : |k * (pi / 2)| = ((k.natAbs : ℝ) + 0) * (pi / 2) := by
    rw [abs_mul, abs_of_pos half_turn_pos, add_zero, Nat.cast_natAbs, Int.cast_abs]
  have inside : k.natAbs < 2 ^ 31 := by
    rw [Int.abs_eq_natAbs] at small
    exact_mod_cast small
  have ends : reduced k.natAbs 0 = 0 ∨ reduced k.natAbs 0 = 1 := by
    unfold reduced
    split
    · exact .inr (sub_zero 1)
    · exact .inl rfl
  obtain ⟨s, value, -, zero, one⟩ := interpolate_near (reduced_inside k.natAbs le_rfl one_pos).1
    (reduced_inside k.natAbs le_rfl one_pos).2
  have exact : s = sin (reduced k.natAbs 0 * (pi / 2)) := by
    rcases ends with none | all
    · rw [zero none, none, zero_mul, Real.sin_zero]
    · rw [one all, all, one_mul, Real.sin_pi_div_two]
  rw [lookupSin_reduced quarters le_rfl one_pos inside, value, sin_changes quarters, exact]

theorem lookupSin_neg (x : ℝ) : lookupSin pi (-x) = (lookupSin pi x).map Neg.neg := by
  rcases le_or_gt (2 ^ 31 * (pi / 2)) |x| with large | small
  · rw [lookupSin_undefined large, lookupSin_undefined (by rwa [abs_neg])]
    rfl
  rcases eq_or_ne x 0 with rfl | nonzero
  · have zero := lookupSin_quarters (k := 0) (by decide)
    rw [Int.cast_zero, zero_mul, Real.sin_zero] at zero
    rw [neg_zero, zero, Option.map_some, neg_zero]
  obtain ⟨n, part, quarters, nonneg, below, inside⟩ := exists_quarters small
  obtain ⟨low, high⟩ := reduced_inside n nonneg below
  obtain ⟨s, value, -⟩ := interpolate_near low high
  have opposite : changes (-x) n = !changes x n := by
    have sign : decide (-x < 0) = !decide (x < 0) := by
      rcases nonzero.lt_or_gt with negative | positive
      · simp [negative, negative.le]
      · simp [positive, positive.le]
    rw [changes, changes, sign, Bool.not_xor]
  rw [lookupSin_reduced ((abs_neg x).trans quarters) nonneg below inside,
    lookupSin_reduced quarters nonneg below inside, value, value, opposite, Option.map_some]
  cases changes x n with
  | false => rfl
  | true => simp

/-- In the range of the conversion to an integer the sine and the cosine of the table are within a millionth of
a millionth of the true ones; outside of it they are undefined. Whole quarters have no error, and opposite
angles have opposite sines. -/
theorem lookup_near (x : ℝ) :
    (|x| < 2 ^ 31 * (pi / 2) → ∃ s, lookupSin pi x = some s ∧ |s - sin x| ≤ 1 / 10 ^ 12) ∧
      (|x + pi / 2| < 2 ^ 31 * (pi / 2) → ∃ c, lookupCos pi x = some c ∧ |c - cos x| ≤ 1 / 10 ^ 12) ∧
      (2 ^ 31 * (pi / 2) ≤ |x| → lookupSin pi x = none) ∧
      (∀ k : ℤ, |k| < 2 ^ 31 → lookupSin pi (k * (pi / 2)) = some (sin (k * (pi / 2)))) ∧
      lookupSin pi (-x) = (lookupSin pi x).map Neg.neg := by
  refine ⟨lookupSin_near, fun small => ?_, lookupSin_undefined, fun _ => lookupSin_quarters, lookupSin_neg x⟩
  rw [← Real.sin_add_pi_div_two]
  exact lookupSin_near small

end Emblib.LookupSine
