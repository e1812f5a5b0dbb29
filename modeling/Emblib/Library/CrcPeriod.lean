import Mathlib.Data.Nat.Prime.Basic
import Mathlib.Dynamics.PeriodicPts.Defs
import Emblib.Library.Crc

/-! How long a reflected CRC takes to come back to a register when it is fed zeros. A register
is a polynomial, a shift multiplies it by the variable, and any number of shifts is a
multiplication too; so they can be computed by squaring. -/
namespace Emblib.Crc
open Function

/-- Carry-less multiplication modulo the polynomial, by the low `count` bits of the multiplier.
The top bit of a register is the constant term. -/
def multiply (poly factor multiplier : BitVec w) : Nat → BitVec w
  | 0 => 0#w
  | count + 1 =>
    shift poly (multiply poly factor multiplier count) ^^^ (if multiplier.getLsbD count then factor else 0#w)

/-- The register of the constant polynomial. -/
def one (w : Nat) : BitVec w := BitVec.twoPow w (w - 1)

variable {w k : Nat} {poly : BitVec w}

/-- A linear map that commutes with the shift commutes with the multiplication. -/
theorem linear_multiply {map : BitVec w → BitVec w}
    (linear : ∀ left right, map (left ^^^ right) = map left ^^^ map right)
    (commutes : ∀ crc, map (shift poly crc) = shift poly (map crc)) (factor multiplier : BitVec w)
    (count : Nat) :
    map (multiply poly factor multiplier count) = multiply poly (map factor) multiplier count := by
  have zero : map 0#w = 0#w := by
    have twice := linear 0#w 0#w
    rwa [BitVec.xor_self, BitVec.xor_self] at twice
  induction count with
  | zero => exact zero
  | succ count ih =>
    rw [multiply, linear, commutes, ih, multiply, apply_ite map, zero]

/-- Multiplying one gives the multiplier, a bit at a time from the lowest. -/
theorem multiply_one (multiplier : BitVec w) {count : Nat} (inside : count ≤ w) :
    multiply poly (one w) multiplier count = multiplier <<< (w - count) := by
  induction count with
  | zero => simp [multiply]
  | succ count ih =>
    have low : (multiplier <<< (w - count)).getLsbD 0 = false := by
      rw [BitVec.getLsbD_shiftLeft]
      simp
      omega
    rw [multiply, ih (Nat.le_of_succ_le inside), shift, low]
    have top (index : Nat) (bound : index < w) : (if multiplier.getLsbD count then one w else 0#w).getLsbD index =
        (decide (index = w - 1) && multiplier.getLsbD count) := by
      cases multiplier.getLsbD count with
      | true => simp [one, bound]
      | false => simp
    apply BitVec.eq_of_getLsbD_eq
    intro index bound
    simp only [BitVec.getLsbD_xor, top index bound, BitVec.getLsbD_ushiftRight, BitVec.getLsbD_shiftLeft, bound, decide_true,
      Bool.true_and]
    by_cases last : index = w - 1
    · subst last
      have position : w - 1 - (w - (count + 1)) = count := by omega
      have outside : ¬1 + (w - 1) < w := by omega
      have behind : ¬w - 1 < w - (count + 1) := by omega
      simp [position, outside, behind]
    · have position : 1 + index - (w - count) = index - (w - (count + 1)) := by omega
      have inside : 1 + index < w := by omega
      have same : (1 + index < w - count) = (index < w - (count + 1)) := by
        rw [eq_iff_iff]
        omega
      simp [last, position, inside, same]

/-- Any number of shifts is a multiplication. -/
theorem shifts_multiply (count : Nat) (crc : BitVec w) :
    (shift poly)^[count] crc = multiply poly ((shift poly)^[count] (one w)) crc w := by
  have whole := @multiply_one w poly crc w (Nat.le_refl w)
  rw [Nat.sub_self, BitVec.shiftLeft_zero] at whole
  rw [← linear_multiply (shifts_xor count) (fun crc => ?_), whole]
  rw [← Function.iterate_succ_apply, Function.iterate_succ_apply']

/-- The number with these binary digits, the highest first. -/
def exponent (digits : List Bool) : Nat := digits.foldl (fun n digit => 2 * n + digit.toNat) 0

/-- One, shifted as often, by squaring and shifting. -/
def power (poly : BitVec w) (digits : List Bool) : BitVec w :=
  digits.foldl (fun crc digit =>
    let square := multiply poly crc crc w
    if digit then shift poly square else square) (one w)

theorem power_eq (digits : List Bool) : power poly digits = (shift poly)^[exponent digits] (one w) := by
  have general (n : Nat) : digits.foldl (fun crc digit =>
        let square := multiply poly crc crc w
        if digit then shift poly square else square) ((shift poly)^[n] (one w)) =
      (shift poly)^[digits.foldl (fun n digit => 2 * n + digit.toNat) n] (one w) := by
    induction digits generalizing n with
    | nil => rfl
    | cons digit digits ih =>
      have square : multiply poly ((shift poly)^[n] (one w)) ((shift poly)^[n] (one w)) w =
          (shift poly)^[2 * n] (one w) := by
        rw [← shifts_multiply, ← Function.iterate_add_apply, Nat.two_mul]
      simp only [List.foldl_cons, square]
      cases digit with
      | false => exact ih (2 * n)
      | true =>
        have shifted : shift poly ((shift poly)^[2 * n] (one w)) = (shift poly)^[2 * n + 1] (one w) :=
          (Function.iterate_succ_apply' (shift poly) (2 * n) (one w)).symm
        rw [if_pos rfl, shifted]
        exact ih (2 * n + 1)
  exact general 0

/-- So many shifts in a few multiplications. -/
theorem shifts_power (digits : List Bool) (crc : BitVec w) :
    (shift poly)^[exponent digits] crc = multiply poly (power poly digits) crc w := by
  rw [shifts_multiply, power_eq]

/-- A period that no prime divides off is the least one. -/
theorem least_period {A : Type} {map : A → A} {point : A} {period : Nat}
    (periodic : IsPeriodicPt map period point)
    (least : ∀ p, p.Prime → p ∣ period → ¬IsPeriodicPt map (period / p) point) {count : Nat}
    (again : IsPeriodicPt map count point) : period ∣ count := by
  obtain ⟨quotient, product⟩ := periodic.minimalPeriod_dvd
  by_cases whole : quotient = 1
  · rw [whole, Nat.mul_one] at product
    exact product ▸ again.minimalPeriod_dvd
  · obtain ⟨p, prime, divides⟩ := Nat.exists_prime_and_dvd whole
    obtain ⟨rest, rfl⟩ := divides
    have divided : period / p = minimalPeriod map point * rest := by
      rw [product, Nat.mul_left_comm, Nat.mul_div_cancel_left _ prime.pos]
    refine absurd ?_ (least p prime ⟨minimalPeriod map point * rest, by rw [product, Nat.mul_left_comm]⟩)
    rw [divided]
    exact (isPeriodicPt_minimalPeriod map point).mul_const rest

/-- A message of zeros only shifts the register. -/
theorem register_zeros (count : Nat) (crc : BitVec w) :
    register poly crc (List.replicate count 0#k) = (shift poly)^[k * count] crc := by
  induction count generalizing crc with
  | zero => rfl
  | succ count ih =>
    have fed : register poly crc (List.replicate (count + 1) 0#k) =
        register poly (update poly crc 0#k) (List.replicate count 0#k) := rfl
    have plain : update poly crc 0#k = (shift poly)^[k] crc := by
      rw [update, BitVec.setWidth_zero, BitVec.xor_zero]
    rw [fed, ih, plain, ← Function.iterate_add_apply, Nat.mul_succ]

end Emblib.Crc
