import Mathlib.Algebra.Order.ToIntervalMod
import Mathlib.Data.Rat.Floor
import Mathlib.Tactic.FieldSimp
import Mathlib.Tactic.Linarith
import Mathlib.Tactic.NormNum
import Mathlib.Tactic.Positivity
import Emblib.Library.Integers
import Emblib.Library.Numbers

/-! Angles in degrees, reduced to one circle: with a remainder, and with a conversion to an integer.
The two are compared through what they both compute, the one angle of the circle that differs by
full turns. -/
namespace Emblib.Angle
open Integers
open Numbers (truncate truncate_nonneg truncate_neg truncate_abs)

/-! ## Integers and remainders -/

theorem int32_bits : 0 < 32 := Nat.succ_pos 31

theorem longLong_bits : 0 < 64 := Nat.succ_pos 63

def int32 : IntType := ⟨32, true, int32_bits⟩

def longLong : IntType := ⟨64, true, longLong_bits⟩

variable {K : Type} [Field K] [LinearOrder K] [FloorRing K]

/-- The conversion to an integer type, undefined if the integer does not fit. -/
def toInteger (type : IntType) (x : K) : Option (Value type) :=
  if fits : Fits type (truncate x) then some ⟨truncate x, fits⟩ else none

def fmodTrivial (x y : K) : Option K := do
  let quotient ← toInteger longLong (x / y)
  return x - quotient.val * y

/-- `fmod`, in a constant expression or not. -/
def fmod (isConsteval : Bool) (x y : K) : Option K :=
  if isConsteval then fmodTrivial x y else some (Numbers.fmod x y)

/-! ## The four functions -/

def norm360 (isConsteval : Bool) (v : K) : Option K := do
  let val ← fmod isConsteval v 360
  return if val < 0 then val + 360 else val

/-- The angle is shifted, normalized and shifted back. -/
def offset180 (normalize : K → Option K) (v : K) : Option K := do
  return (← normalize (v + 180)) - 180

def norm180 (isConsteval : Bool) (v : K) : Option K := offset180 (norm360 isConsteval) v

/-- The integer and the boolean are promoted, where `int` has this width. -/
def norm360Fast (intBits : Nat) (v : K) : Option K := do
  let inv360 : K := 1 / 360
  let norm := v * inv360
  let whole ← toInteger int32 norm
  let turns ← evaluate (promote intBits int32) (whole.val - if norm < 0 then 1 else 0)
  let norm := norm - turns.val
  let norm := if 1 ≤ norm then norm - 1 else norm
  return norm * 360

def norm180Fast (intBits : Nat) (v : K) : Option K := offset180 (norm360Fast intBits) v

/-! ## One angle of the circle -/

/-- The angle that differs by full turns, in the circle from `low` on. -/
structure Normalized (low v u : K) : Prop where
  above : low ≤ u
  below : u < low + 360
  turns : ∃ k : ℤ, v - u = k * 360

variable [IsStrictOrderedRing K] {low v u w : K} {isConsteval : Bool} {intBits : Nat}

theorem circle_pos : (0 : K) < 360 := by norm_num

theorem normalized_iff : Normalized low v u ↔ toIcoMod circle_pos low v = u := by
  rw [toIcoMod_eq_iff]
  constructor
  · rintro ⟨above, below, k, turns⟩
    refine ⟨⟨above, below⟩, k, ?_⟩
    rw [zsmul_eq_mul]
    linarith
  · rintro ⟨⟨above, below⟩, k, turns⟩
    refine ⟨above, below, k, ?_⟩
    rw [turns, zsmul_eq_mul, add_sub_cancel_left]

/-- There is only one. -/
theorem normalized_unique (first : Normalized low v u) (second : Normalized low v w) : u = w :=
  (normalized_iff.mp first).symm.trans (normalized_iff.mp second)

omit [IsStrictOrderedRing K] [FloorRing K] in
theorem normalized_self (above : low ≤ v) (below : v < low + 360) : Normalized low v v :=
  ⟨above, below, 0, by rw [sub_self, Int.cast_zero, zero_mul]⟩

omit [FloorRing K] in
theorem normalized_shift (normalized : Normalized 0 (v + 180) u) : Normalized (-180) v (u - 180) := by
  obtain ⟨above, below, k, turns⟩ := normalized
  refine ⟨by linarith, by linarith, k, ?_⟩
  rw [← turns]
  ring

/-! ## The remainder -/

omit [IsStrictOrderedRing K] in
theorem toInteger_eq {type : IntType} {x : K} {whole : Value type} (converted : toInteger type x = some whole) :
    whole.val = truncate x := by
  unfold toInteger at converted
  split at converted
  · cases converted
    rfl
  · cases converted

omit [IsStrictOrderedRing K] in
/-- In a constant expression or not, `fmod` takes off the same multiple. -/
theorem fmod_eq {x y remainder : K} (ran : fmod isConsteval x y = some remainder) :
    remainder = x - truncate (x / y) * y := by
  cases isConsteval with
  | false => exact (Option.some.inj ran).symm
  | true =>
    obtain ⟨quotient, converted, rest⟩ := Option.bind_eq_some_iff.mp ran
    rw [← toInteger_eq converted]
    exact (Option.some.inj rest).symm

theorem norm360_normalized (ran : norm360 isConsteval v = some u) : Normalized 0 v u := by
  obtain ⟨val, remainder, rest⟩ := Option.bind_eq_some_iff.mp ran
  have val_eq := fmod_eq remainder
  have quotient : v = v / 360 * 360 := (div_mul_cancel₀ v circle_pos.ne').symm
  obtain rfl := Option.some.inj rest
  rcases le_or_gt 0 (v / 360) with nonneg | negative
  · obtain ⟨least, most⟩ := truncate_nonneg nonneg
    have plain : ¬val < 0 := by linarith
    rw [if_neg plain]
    refine ⟨by linarith, by linarith, truncate (v / 360), by linarith⟩
  · obtain ⟨least, most⟩ := truncate_neg negative
    split
    · refine ⟨by linarith, by linarith, truncate (v / 360) - 1, ?_⟩
      push_cast
      linarith
    · refine ⟨by linarith, by linarith, truncate (v / 360), by linarith⟩

theorem int32_signed (intBits : Nat) : (promote intBits int32).signed = true := by
  unfold promote
  split <;> rfl

omit [IsStrictOrderedRing K] in
/-- One more is taken off a negative number than the integer that is left of it. What is left is one
where the number was an integer. -/
theorem norm360Fast_turns (ran : norm360Fast intBits v = some u) :
    ∃ turns : ℤ, (turns = truncate (v * (1 / 360)) - if v * (1 / 360) < 0 then 1 else 0) ∧
      u = (if 1 ≤ v * (1 / 360) - turns then v * (1 / 360) - turns - 1 else v * (1 / 360) - turns) *
        360 := by
  obtain ⟨whole, converted, rest⟩ := Option.bind_eq_some_iff.mp ran
  obtain ⟨turns, computed, rest⟩ := Option.bind_eq_some_iff.mp rest
  have exact := evaluate_fits (fits_of_evaluate (int32_signed intBits) computed)
  have same := congrArg Value.val (Option.some.inj (computed.symm.trans exact))
  rw [← toInteger_eq converted]
  exact ⟨turns.val, same, (Option.some.inj rest).symm⟩

theorem norm360Fast_normalized (ran : norm360Fast intBits v = some u) : Normalized 0 v u := by
  obtain ⟨turns, taken, result⟩ := norm360Fast_turns ran
  have quotient : v = v * (1 / 360) * 360 := by ring
  generalize v * (1 / 360) = norm at *
  rcases le_or_gt 0 norm with nonneg | negative
  · obtain ⟨least, most⟩ := truncate_nonneg nonneg
    rw [if_neg (not_lt.mpr nonneg), sub_zero] at taken
    subst taken
    have plain : ¬1 ≤ norm - truncate norm := by linarith
    rw [if_neg plain] at result
    refine ⟨by linarith, by linarith, truncate norm, by linarith⟩
  · obtain ⟨least, most⟩ := truncate_neg negative
    rw [if_pos negative] at taken
    have cast : (turns : K) = truncate norm - 1 := by
      rw [taken]
      push_cast
      rfl
    split at result
    · refine ⟨by linarith, by linarith, truncate norm, by linarith⟩
    · refine ⟨by linarith, by linarith, turns, by linarith⟩

/-! ## Where the functions are defined -/

theorem quotient_small (small : |v| < 360 * 2 ^ 31) : |v / 360| < (2 ^ 31 : ℤ) := by
  have circle : (0 : K) < 360 := circle_pos
  rw [abs_div, abs_of_pos circle, div_lt_iff₀ circle]
  push_cast
  linarith

theorem norm360_defined (small : |v| < 360 * 2 ^ 31) (isConsteval : Bool) :
    ∃ u, norm360 isConsteval v = some u := by
  cases isConsteval with
  | false => exact ⟨_, rfl⟩
  | true =>
    obtain ⟨low, high⟩ := truncate_abs (quotient_small small)
    have fits : Fits longLong (truncate (v / 360)) := by
      constructor
      · exact le_trans (by decide) low.le
      · exact high.trans (by decide)
    have converted : toInteger longLong (v / 360) = some ⟨_, fits⟩ := dif_pos fits
    unfold norm360 fmod fmodTrivial
    simp only [if_true, converted, Option.bind_eq_bind, Option.bind_some, Option.pure_def]
    exact ⟨_, rfl⟩

/-- The least integer is not reached, so there is room for the one that is taken off. -/
theorem norm360Fast_defined (small : |v| < 360 * 2 ^ 31) (intBits : Nat) :
    ∃ u, norm360Fast intBits v = some u := by
  have quotient := quotient_small small
  rw [div_eq_mul_one_div] at quotient
  obtain ⟨low, high⟩ := truncate_abs quotient
  have fits : Fits int32 (truncate (v * (1 / 360))) := by
    constructor
    · exact low.le
    · exact high
  have room : Fits int32 (truncate (v * (1 / 360)) - if v * (1 / 360) < 0 then 1 else 0) := by
    have least : int32.lower = -2 ^ 31 := rfl
    rw [Fits, least] at fits ⊢
    split <;> omega
  have converted : toInteger int32 (v * (1 / 360)) = some ⟨_, fits⟩ := dif_pos fits
  have computed := evaluate_fits (fits_promote intBits room)
  unfold norm360Fast
  simp only [converted, computed, Option.bind_eq_bind, Option.bind_some, Option.pure_def]
  exact ⟨_, rfl⟩

/-! ## Agreement -/

/-- The function gives normalized angles, and gives one in the range of the conversion. -/
structure Normalizes (low : K) (normalize : K → Option K) : Prop where
  normalized : ∀ {v u}, normalize v = some u → Normalized low v u
  defined : ∀ {v}, |v - low| < 360 * 2 ^ 31 → ∃ u, normalize v = some u

variable {normalize other : K → Option K}

theorem norm360_normalizes (isConsteval : Bool) : Normalizes (0 : K) (norm360 isConsteval) where
  normalized := norm360_normalized
  defined := by
    intro v small
    rw [sub_zero] at small
    exact norm360_defined small isConsteval

theorem norm360Fast_normalizes (intBits : Nat) : Normalizes (0 : K) (norm360Fast intBits) where
  normalized := norm360Fast_normalized
  defined := by
    intro v small
    rw [sub_zero] at small
    exact norm360Fast_defined small intBits

omit [FloorRing K] in
theorem offset180_normalizes (normalizes : Normalizes 0 normalize) :
    Normalizes (-180) (offset180 normalize) where
  normalized := by
    intro v u ran
    obtain ⟨val, shifted, rest⟩ := Option.bind_eq_some_iff.mp ran
    obtain rfl := Option.some.inj rest
    exact normalized_shift (normalizes.normalized shifted)
  defined := by
    intro v small
    rw [sub_neg_eq_add, ← sub_zero (v + 180)] at small
    obtain ⟨val, shifted⟩ := normalizes.defined small
    unfold offset180
    rw [shifted]
    exact ⟨_, rfl⟩

/-- Two functions that normalize to the same circle agree. -/
theorem normalizes_agree (first : Normalizes low normalize) (second : Normalizes low other)
    (small : |v - low| < 360 * 2 ^ 31) :
    ∃ u, normalize v = some u ∧ other v = some u ∧ Normalized low v u := by
  obtain ⟨u, ran⟩ := first.defined small
  obtain ⟨w, also⟩ := second.defined small
  have normalized := first.normalized ran
  rw [← normalized_unique normalized (second.normalized also)] at also
  exact ⟨u, ran, also, normalized⟩

/-- What has been normalized is normalized already. -/
def Idempotent (normalize : K → Option K) : Prop := ∀ v u, normalize v = some u → normalize u = some u

theorem normalizes_idempotent (normalizes : Normalizes low normalize) : Idempotent normalize := by
  intro v u ran
  have range := normalizes.normalized ran
  have small : |u - low| < 360 * 2 ^ 31 := by
    rw [abs_of_nonneg (sub_nonneg.mpr range.above)]
    linarith [range.below]
  obtain ⟨w, again⟩ := normalizes.defined small
  have same := normalized_unique (normalizes.normalized again) (normalized_self range.above range.below)
  rw [again, same]

/-- Where both are defined, the fast function gives what the plain one does. -/
theorem norm_fast_agrees (isConsteval : Bool) (intBits : Nat) :
    (∀ v : K, |v| < 360 * 2 ^ 31 →
      ∃ u, norm360Fast intBits v = some u ∧ norm360 isConsteval v = some u ∧ Normalized 0 v u) ∧
    (∀ v : K, |v + 180| < 360 * 2 ^ 31 →
      ∃ u, norm180Fast intBits v = some u ∧ norm180 isConsteval v = some u ∧ Normalized (-180) v u) ∧
    Idempotent (norm360 (K := K) isConsteval) ∧ Idempotent (norm180 (K := K) isConsteval) ∧
    Idempotent (norm360Fast (K := K) intBits) ∧ Idempotent (norm180Fast (K := K) intBits) := by
  have plain := norm360_normalizes (K := K) isConsteval
  have fast := norm360Fast_normalizes (K := K) intBits
  have plainShifted := offset180_normalizes plain
  have fastShifted := offset180_normalizes fast
  refine ⟨?_, ?_, ?_⟩
  · intro v small
    apply normalizes_agree fast plain
    rwa [sub_zero]
  · intro v small
    apply normalizes_agree fastShifted plainShifted
    rwa [sub_neg_eq_add]
  · exact ⟨normalizes_idempotent plain, normalizes_idempotent plainShifted,
      normalizes_idempotent fast, normalizes_idempotent fastShifted⟩

/-- Two full turns backwards, and one and a half forwards. -/
theorem norm_fast_agrees_testing :
    (∃ u : ℚ, norm360Fast 32 (-720) = some u ∧ norm360 true (-720) = some u ∧ Normalized 0 (-720) u) ∧
    (∃ u : ℚ, norm180Fast 32 540 = some u ∧ norm180 true 540 = some u ∧ Normalized (-180) 540 u) ∧
    Idempotent (norm180Fast (K := ℚ) 32) := by
  obtain ⟨agrees360, agrees180, _, _, _, idempotent⟩ := norm_fast_agrees (K := ℚ) true 32
  exact ⟨agrees360 (-720) (by norm_num), agrees180 540 (by norm_num), idempotent⟩

end Emblib.Angle
