import Emblib.Library.BitSets
import Emblib.Mmio

/-! The check for overlapping masks compares their union with their sum, both in the type of the register.
Overlaps that add up to a multiple of the size of the register are not seen. -/
namespace Emblib.MmioOverlap
open Integers Bitwise Number BitSets Mmio

/-- The mask as a set of bits. -/
def bitsOf (mask : Number) : Nat := mask.val.toNat

/-- No bit is in two of the masks. -/
def Apart (masks : List Number) : Prop := masks.Pairwise fun mask other => mask.val.land other.val = 0

instance (masks : List Number) : Decidable (Apart masks) := inferInstanceAs (Decidable (List.Pairwise _ _))

/-- The bits that an earlier mask has too, counted each time. -/
def overlaps (masks : List Number) : Nat := recounted 0 (masks.map bitsOf)

/-- The sum of the masks. -/
def total (masks : List Number) : Int := (masks.map Number.val).sum

section Sum
variable {intBits : Nat} {register : Register} {mask first : Number} {masks rest : List Number}

theorem field_nonneg (accepted : FieldMaskFor intBits mask register) : 0 ≤ mask.val :=
  Int.le_of_lt accepted.1.1

theorem register_upper (register : Register) : register.type.upper = 2 ^ register.bits := by
  rw [upper_eq]
  rfl

theorem field_below (accepted : FieldMaskFor intBits mask register) : mask.val < 2 ^ register.bits := by
  rw [← register_upper]
  exact accepted.1.2.2

theorem bitsOf_cast (accepted : FieldMaskFor intBits mask register) : (bitsOf mask : Int) = mask.val :=
  Int.toNat_of_nonneg (field_nonneg accepted)

/-- A conversion to the type of the register. -/
theorem convert_register (register : Register) (x : Int) :
    (convert register.type x).val = x % 2 ^ register.bits := by
  simp [convert, IntType.lower]

theorem of_field (accepted : FieldMaskFor intBits mask register) :
    (of register.type mask.val).val = mask.val :=
  of_val accepted.1.2

/-! ## The sum -/

theorem total_cast (accepted : ∀ mask ∈ masks, FieldMaskFor intBits mask register) :
    total masks = ((masks.map bitsOf).sum : Nat) := by
  induction masks with
  | nil => rfl
  | cons mask masks ih =>
    obtain ⟨first, others⟩ := List.forall_mem_cons.mp accepted
    have rest := ih others
    unfold total at rest ⊢
    rw [List.map_cons, List.map_cons, List.sum_cons, List.sum_cons, Int.natCast_add, bitsOf_cast first, rest]

theorem total_cons (acc : Int) (mask : Number) (masks : List Number) :
    acc + total (mask :: masks) = acc + mask.val + total masks := by
  simp only [total, List.map_cons, List.sum_cons, Int.add_assoc]

/-- Where the sum is computed in a signed type, it is exact or undefined. -/
theorem sum_signed (acc : Number) (signed : (promote intBits register.type).signed = true)
    (typed : promote intBits acc.type = promote intBits register.type)
    (accepted : ∀ mask ∈ masks, FieldMaskFor intBits mask register) :
    ((masks.map fun mask => of register.type mask.val).foldlM (Number.add intBits) acc).map Number.val =
      if Fits (promote intBits register.type) (acc.val + total masks) then some (acc.val + total masks)
      else none := by
  induction masks generalizing acc with
  | nil =>
    have fits : Fits (promote intBits register.type) acc.val := typed ▸ fits_promote intBits acc.value.fits
    have same : acc.val + total [] = acc.val := Int.add_zero _
    rw [same, if_pos fits]
    rfl
  | cons mask masks ih =>
    obtain ⟨first, others⟩ := List.forall_mem_cons.mp accepted
    rw [List.map_cons, List.foldlM_cons, add_promoted typed rfl, of_field first, total_cons]
    by_cases fits : Fits (promote intBits register.type) (acc.val + mask.val)
    · rw [evaluate_fits fits]
      exact ih _ (promote_promote intBits register.type) others
    · have overflow : evaluate (promote intBits register.type) (acc.val + mask.val) = none :=
        if_pos ⟨signed, fits⟩
      have least : 0 ≤ total masks := total_cast others ▸ Int.natCast_nonneg _
      have positive := field_nonneg first
      have accLow : (promote intBits register.type).lower ≤ acc.val :=
        (typed ▸ fits_promote intBits acc.value.fits : Fits (promote intBits register.type) acc.val).1
      have more : ¬ Fits (promote intBits register.type) (acc.val + mask.val + total masks) := by
        unfold Fits at fits ⊢
        omega
      rw [overflow, if_neg more]
      rfl

/-- Where it is computed in an unsigned type, it is exact modulo the size of the register. -/
theorem sum_unsigned (acc : Number) (unsigned : (promote intBits register.type).signed = false)
    (typed : promote intBits acc.type = promote intBits register.type)
    (accepted : ∀ mask ∈ masks, FieldMaskFor intBits mask register) :
    ∃ sum, (masks.map fun mask => of register.type mask.val).foldlM (Number.add intBits) acc = some sum ∧
      sum.val ≡ acc.val + total masks [ZMOD 2 ^ register.bits] := by
  induction masks generalizing acc with
  | nil => exact ⟨acc, rfl, by rw [total, List.map_nil, List.sum_nil, Int.add_zero]⟩
  | cons mask masks ih =>
    obtain ⟨first, others⟩ := List.forall_mem_cons.mp accepted
    have same := promote_unsigned unsigned
    rw [List.map_cons, List.foldlM_cons, add_promoted typed rfl, of_field first, total_cons,
      evaluate_unsigned unsigned]
    obtain ⟨sum, folded, congruent⟩ := ih (of (promote intBits register.type) (acc.val + mask.val))
      (promote_promote intBits register.type) others
    refine ⟨sum, folded, congruent.trans (Int.ModEq.add_right _ ?_)⟩
    rw [same]
    exact convert_modEq register.type (acc.val + mask.val)

/-- The sum of the masks cannot be computed: it overflows `int`. -/
def SumOverflows (intBits : Nat) (register : Register) (masks : List Number) : Prop :=
  (promote intBits register.type).signed = true ∧ ¬ Fits (promote intBits register.type) (total masks)

instance : Decidable (SumOverflows intBits register masks) := inferInstanceAs (Decidable (_ ∧ _))

theorem maskSum_eq (accepted : ∀ mask ∈ first :: rest, FieldMaskFor intBits mask register) :
    (maskSum intBits register first rest).map Value.val =
      if SumOverflows intBits register (first :: rest) then none
      else some (total (first :: rest) % 2 ^ register.bits) := by
  obtain ⟨head, others⟩ := List.forall_mem_cons.mp accepted
  have start : (of register.type first.val).val + total rest = total (first :: rest) := by
    rw [of_field head, total, total, List.map_cons, List.sum_cons]
  have reduced : (maskSum intBits register first rest).map Value.val =
      ((rest.map fun mask => of register.type mask.val).foldlM (Number.add intBits)
        (of register.type first.val)).map fun sum => sum.val % 2 ^ register.bits := by
    simp only [maskSum]
    cases (rest.map fun mask => of register.type mask.val).foldlM (Number.add intBits)
        (of register.type first.val) with
    | none => rfl
    | some sum => exact congrArg some (convert_register register sum.val)
  cases signed : (promote intBits register.type).signed with
  | true =>
    have folded := sum_signed (of register.type first.val) signed rfl others
    rw [start] at folded
    have mapped := congrArg (Option.map (· % (2 : Int) ^ register.bits)) folded
    rw [Option.map_map] at mapped
    rw [reduced]
    refine mapped.trans ?_
    by_cases fits : Fits (promote intBits register.type) (total (first :: rest))
    · rw [if_pos fits, if_neg fun overflow => overflow.2 fits]
      rfl
    · rw [if_neg fits, if_pos ⟨signed, fits⟩]
      rfl
  | false =>
    obtain ⟨sum, folded, congruent⟩ := sum_unsigned (of register.type first.val) signed rfl others
    rw [start] at congruent
    have exact : ¬ SumOverflows intBits register (first :: rest) := fun overflow =>
      Bool.false_ne_true (signed.symm.trans overflow.1)
    rw [reduced, folded, if_neg exact]
    exact congrArg some congruent

/-! ## The check -/

/-- The union of the masks. -/
def union (masks : List Number) : Nat := (masks.map bitsOf).foldl (· ||| ·) 0

theorem bitsOf_below (accepted : FieldMaskFor intBits mask register) : bitsOf mask < 2 ^ register.bits := by
  have below := field_below accepted
  rw [← bitsOf_cast accepted] at below
  exact_mod_cast below

theorem union_below (accepted : ∀ mask ∈ masks, FieldMaskFor intBits mask register) :
    union masks < 2 ^ register.bits := by
  refine foldl_or_lt (Nat.two_pow_pos register.bits) fun bits member => ?_
  obtain ⟨mask, included, rfl⟩ := List.mem_map.mp member
  exact bitsOf_below (accepted mask included)

theorem maskOr_eq (accepted : ∀ mask ∈ first :: rest, FieldMaskFor intBits mask register) :
    (maskOr intBits register first rest).val = union (first :: rest) := by
  obtain ⟨head, others⟩ := List.forall_mem_cons.mp accepted
  have folded := @foldl_or_val intBits first rest (field_nonneg head) fun mask member =>
    field_nonneg (others mask member)
  have start : union (first :: rest) = (rest.map bitsOf).foldl (· ||| ·) (bitsOf first) := by
    rw [union, List.map_cons, List.foldl_cons, Nat.zero_or]
  have below : (union (first :: rest) : Int) < 2 ^ register.bits := by
    exact_mod_cast union_below accepted
  calc (maskOr intBits register first rest).val
      = (rest.foldl (Number.or intBits) first).val % 2 ^ register.bits := convert_register register _
    _ = (union (first :: rest) : Int) % 2 ^ register.bits := by rw [folded, start]; rfl
    _ = union (first :: rest) := Int.emod_eq_of_lt (Int.natCast_nonneg _) below

/-- The sum counts the overlaps too. -/
theorem total_eq (accepted : ∀ mask ∈ masks, FieldMaskFor intBits mask register) :
    total masks = (union masks : Int) + overlaps masks := by
  have split := sum_recounted 0 (masks.map bitsOf)
  rw [Nat.zero_add] at split
  rw [total_cast accepted, split]
  exact Int.natCast_add _ _

theorem apart_iff (accepted : ∀ mask ∈ masks, FieldMaskFor intBits mask register) :
    Apart masks ↔ overlaps masks = 0 := by
  have same (mask other : Number) (member : mask ∈ masks) (otherMember : other ∈ masks) :
      mask.val.land other.val = 0 ↔ bitsOf mask &&& bitsOf other = 0 := by
    rw [← bitsOf_cast (accepted mask member), ← bitsOf_cast (accepted other otherMember)]
    exact Int.natCast_eq_zero
  rw [overlaps, recounted_eq_zero, List.pairwise_map, Apart]
  constructor
  · intro apart
    exact ⟨fun bits _ => Nat.zero_and bits, apart.imp_of_mem fun member otherMember =>
      (same _ _ member otherMember).mp⟩
  · rintro ⟨_, apart⟩
    exact apart.imp_of_mem fun member otherMember => (same _ _ member otherMember).mpr

/-- The masks pass where the sum is computed and the overlaps are a multiple of the size of the register. -/
theorem masksMatch_iff (accepted : ∀ mask ∈ first :: rest, FieldMaskFor intBits mask register) :
    MasksMatch intBits register first rest ↔
      ¬ SumOverflows intBits register (first :: rest) ∧ 2 ^ register.bits ∣ overlaps (first :: rest) := by
  have below : (union (first :: rest) : Int) < 2 ^ register.bits := by
    exact_mod_cast union_below accepted
  have exactly : (union (first :: rest) : Int) % 2 ^ register.bits = union (first :: rest) :=
    Int.emod_eq_of_lt (Int.natCast_nonneg _) below
  have divides : ((union (first :: rest) : Int) + overlaps (first :: rest)) % 2 ^ register.bits =
      union (first :: rest) ↔ 2 ^ register.bits ∣ overlaps (first :: rest) := by
    rw [← Int.natCast_dvd_natCast, Int.natCast_pow]
    constructor
    · intro same
      have congruent : (union (first :: rest) : Int) ≡ union (first :: rest) + overlaps (first :: rest)
          [ZMOD 2 ^ register.bits] := exactly.trans same.symm
      simpa using congruent.dvd
    · rintro ⟨times, multiple⟩
      rw [Nat.cast_ofNat] at multiple
      rw [multiple, Int.add_mul_emod_self_left, exactly]
  rw [MasksMatch, maskSum_eq accepted, maskOr_eq accepted, total_eq accepted]
  by_cases overflow : SumOverflows intBits register (first :: rest)
  · rw [if_pos overflow]
    exact iff_of_false nofun fun passes => passes.1 overflow
  · rw [if_neg overflow, Option.some_inj, divides]
    exact (and_iff_right overflow).symm

/-- Masks that are apart can be added up. -/
theorem apart_computed (accepted : ∀ mask ∈ masks, FieldMaskFor intBits mask register)
    (apart : overlaps masks = 0) : ¬ SumOverflows intBits register masks := by
  rintro ⟨_, overflow⟩
  have sum := total_eq accepted
  have below : (union masks : Int) < 2 ^ register.bits := by exact_mod_cast union_below accepted
  rw [apart, Int.natCast_zero, Int.add_zero] at sum
  rw [sum] at overflow
  exact overflow (fits_promote intBits ⟨Int.natCast_nonneg _, by rwa [register_upper]⟩)

/-- **The overlap check is exact** where the overlaps do not add up to a multiple of the size of the
register. -/
theorem overlap_check_exact_iff (accepted : ∀ mask ∈ first :: rest, FieldMaskFor intBits mask register) :
    (MasksMatch intBits register first rest ↔ Apart (first :: rest)) ↔
      (2 ^ register.bits ∣ overlaps (first :: rest) →
        overlaps (first :: rest) = 0 ∨ SumOverflows intBits register (first :: rest)) := by
  rw [masksMatch_iff accepted, apart_iff accepted]
  constructor
  · intro exact divides
    by_cases overflow : SumOverflows intBits register (first :: rest)
    · exact .inr overflow
    · exact .inl (exact.mp ⟨overflow, divides⟩)
  · intro condition
    constructor
    · rintro ⟨computed, divides⟩
      exact (condition divides).resolve_right computed
    · intro apart
      exact ⟨apart_computed accepted apart, apart ▸ Nat.dvd_zero _⟩

/-- Two masks do not overlap often enough to pass unseen. -/
theorem two_masks_checked {second : Number}
    (accepted : ∀ mask ∈ [first, second], FieldMaskFor intBits mask register) :
    MasksMatch intBits register first [second] ↔ Apart [first, second] := by
  refine (overlap_check_exact_iff accepted).mpr fun divides => .inl ?_
  have common : overlaps [first, second] = bitsOf first &&& bitsOf second := by
    simp [overlaps, recounted]
  have below := bitsOf_below (accepted first List.mem_cons_self)
  rw [common] at divides ⊢
  exact Nat.eq_zero_of_dvd_of_lt divides (Nat.and_le_left.trans_lt below)

end Sum

/-! ## A register of 8 bits -/

theorem testing_positive : 0 < 8 := by decide

def testingRegister : Register := ⟨8, testing_positive⟩

/-- A mask constant of type `uint8_t`. -/
def testingMask (mask : Int) : Number := of testingRegister.type mask

theorem overlap_check_exact_iff_testing :
    (MasksMatch 32 testingRegister (testingMask 0x03) [testingMask 0x06, testingMask 0x08] ↔
        Apart [testingMask 0x03, testingMask 0x06, testingMask 0x08]) ↔
      (2 ^ 8 ∣ overlaps [testingMask 0x03, testingMask 0x06, testingMask 0x08] →
        overlaps [testingMask 0x03, testingMask 0x06, testingMask 0x08] = 0 ∨
          SumOverflows 32 testingRegister [testingMask 0x03, testingMask 0x06, testingMask 0x08]) :=
  overlap_check_exact_iff (by decide)

/-- A call with three times the highest bit compiles: the sum is 0x180, which is 0x80 in the register. -/
theorem tripled_mask_passes :
    let mask := testingMask 0x80
    let field : Bits := ⟨mask, convert mask.type 0x80⟩
    (∀ accepted ∈ [mask, mask, mask], FieldMaskFor 32 accepted testingRegister) ∧
      MasksMatch 32 testingRegister mask [mask, mask] ∧ ¬ Apart [mask, mask, mask] ∧
      (modify 32 (convert testingRegister.type 0) field [field, field]).isSome := by
  decide

end Emblib.MmioOverlap
