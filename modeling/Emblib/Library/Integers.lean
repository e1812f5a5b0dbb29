import Mathlib.Algebra.Order.Monoid.Unbundled.Pow
import Mathlib.Algebra.Order.Ring.Int
import Mathlib.Data.Int.ModEq

/-! Integer types of a given width, as C++ has them: a value of a narrow type is promoted before
it is used, the result of an operation has to fit if the type is signed and wraps if it is not,
and a conversion wraps. -/
namespace Emblib.Integers

structure IntType where
  bits : Nat
  signed : Bool
  positive : 0 < bits

/-- The smallest value. -/
def IntType.lower (type : IntType) : Int := if type.signed then -2 ^ (type.bits - 1) else 0

/-- The value after the largest one. -/
def IntType.upper (type : IntType) : Int := type.lower + 2 ^ type.bits

def Fits (type : IntType) (x : Int) : Prop := type.lower ≤ x ∧ x < type.upper

instance (type : IntType) (x : Int) : Decidable (Fits type x) := inferInstanceAs (Decidable (_ ∧ _))

/-- A value of the type. -/
structure Value (type : IntType) where
  val : Int
  fits : Fits type val

variable {type : IntType} {x y : Int}

theorem size_pos (type : IntType) : (0 : Int) < 2 ^ type.bits := Int.pow_pos two_pos

theorem wrapped_fits (type : IntType) (x : Int) :
    Fits type ((x - type.lower) % 2 ^ type.bits + type.lower) := by
  have nonneg := Int.emod_nonneg (x - type.lower) (size_pos type).ne'
  have below := Int.emod_lt_of_pos (x - type.lower) (size_pos type)
  unfold Fits IntType.upper
  omega

theorem fits_zero (type : IntType) : Fits type 0 := by
  have positive : (0 : Int) < 2 ^ (type.bits - 1) := Int.pow_pos two_pos
  have doubled : (2 : Int) ^ type.bits = 2 * 2 ^ (type.bits - 1) := by
    rw [← Int.pow_succ', Nat.sub_add_cancel type.positive]
  unfold Fits IntType.upper IntType.lower
  split <;> omega

/-- The conversion to the type. -/
def convert (type : IntType) (x : Int) : Value type where
  val := (x - type.lower) % 2 ^ type.bits + type.lower
  fits := wrapped_fits type x

theorem convert_fits (fits : Fits type x) : convert type x = ⟨x, fits⟩ := by
  obtain ⟨low, high⟩ := fits
  unfold IntType.upper at high
  have same : (x - type.lower) % 2 ^ type.bits = x - type.lower :=
    Int.emod_eq_of_lt (by omega) (by omega)
  unfold convert
  simp only [same, Int.sub_add_cancel]

/-- A conversion only depends on the value modulo the size of the type. -/
theorem convert_congr (same : x ≡ y [ZMOD 2 ^ type.bits]) : convert type x = convert type y := by
  have shifted : (x - type.lower) % 2 ^ type.bits = (y - type.lower) % 2 ^ type.bits :=
    Int.ModEq.sub_right _ same
  unfold convert
  simp only [shifted]

theorem convert_modEq (type : IntType) (x : Int) : (convert type x).val ≡ x [ZMOD 2 ^ type.bits] := by
  have wrapped : (x - type.lower) % 2 ^ type.bits ≡ x - type.lower [ZMOD 2 ^ type.bits] :=
    Int.mod_modEq _ _
  have back := wrapped.add_right type.lower
  rwa [Int.sub_add_cancel] at back

/-- The type that a value of the type is promoted to, where `int` has this width. -/
def promote (intBits : Nat) (type : IntType) : IntType :=
  if narrow : type.bits < intBits then ⟨intBits, true, Nat.zero_lt_of_lt narrow⟩ else type

/-- A promotion keeps the values. -/
theorem fits_promote (intBits : Nat) (fits : Fits type x) : Fits (promote intBits type) x := by
  unfold promote
  split
  case isTrue narrow =>
    obtain ⟨low, high⟩ := fits
    have doubled : (2 : Int) ^ intBits = 2 * 2 ^ (intBits - 1) := by
      rw [← Int.pow_succ', Nat.sub_add_cancel (by omega)]
    have wider : (2 : Int) ^ type.bits ≤ 2 ^ (intBits - 1) :=
      pow_le_pow_right₀ one_le_two (by omega)
    have half : (2 : Int) ^ (type.bits - 1) ≤ 2 ^ type.bits :=
      pow_le_pow_right₀ one_le_two (by omega)
    have positive : (0 : Int) < 2 ^ (type.bits - 1) := Int.pow_pos two_pos
    have least : -2 ^ (type.bits - 1) ≤ type.lower ∧ type.lower ≤ 0 := by
      unfold IntType.lower
      split <;> omega
    unfold IntType.upper at high
    unfold Fits IntType.upper IntType.lower
    simp only [if_true]
    omega
  case isFalse wide => exact fits

theorem promote_promote (intBits : Nat) (type : IntType) :
    promote intBits (promote intBits type) = promote intBits type := by
  unfold promote
  by_cases narrow : type.bits < intBits <;> simp [narrow]

/-- An unsigned type that is not promoted to `int` is not promoted at all. -/
theorem promote_unsigned {intBits : Nat} (unsigned : (promote intBits type).signed = false) :
    promote intBits type = type := by
  unfold promote at unsigned ⊢
  split
  case isTrue narrow => simp [narrow] at unsigned
  case isFalse wide => rfl

/-- The value of an operation in the type, which is undefined if a signed type overflows. -/
def evaluate (type : IntType) (x : Int) : Option (Value type) :=
  if type.signed = true ∧ ¬ Fits type x then none else some (convert type x)

theorem evaluate_fits (fits : Fits type x) : evaluate type x = some ⟨x, fits⟩ := by
  rw [evaluate, if_neg fun overflow => overflow.2 fits, convert_fits fits]

theorem evaluate_unsigned (unsigned : type.signed = false) :
    evaluate type x = some (convert type x) := by
  rw [evaluate, if_neg]
  rintro ⟨signed, _⟩
  rw [unsigned] at signed
  cases signed

theorem fits_of_evaluate {value : Value type} (signed : type.signed = true)
    (defined : evaluate type x = some value) : Fits type x := by
  unfold evaluate at defined
  by_contra overflow
  rw [if_pos ⟨signed, overflow⟩] at defined
  cases defined

/-! A truncated quotient keeps the bounds that the exact one has. -/

theorem le_tdiv {count low : Int} (positive : 0 < count) (above : count * low ≤ x) :
    low ≤ x.tdiv count := by
  have least := Int.tdiv_le_tdiv positive above
  rwa [Int.mul_tdiv_cancel_left _ positive.ne'] at least

theorem tdiv_le {count high : Int} (positive : 0 < count) (below : x ≤ count * high) :
    x.tdiv count ≤ high := by
  have most := Int.tdiv_le_tdiv positive below
  rwa [Int.mul_tdiv_cancel_left _ positive.ne'] at most

end Emblib.Integers
