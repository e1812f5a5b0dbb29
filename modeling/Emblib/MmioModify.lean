import Mathlib.Data.List.Pairwise
import Emblib.MmioOverlap

/-! One `modify` of several fields against one `write` after the other. Both put the value of a field where
its mask is, whatever types the masks have and the operations are computed in; but the objects that `modify`
takes cannot be built for a mask constant of a signed type. -/
namespace Emblib.MmioModify
open Integers Bitwise Number BitSets Mmio MmioOverlap

/-! ## Masks -/

section Masks
variable {intBits : Nat} {register : Register} {mask x y : Number} {i k n : Nat}

/-- The number of bits of a mask. -/
def numberOfBits (mask : Number) : Nat := (List.range mask.type.bits).countP fun i => mask.val.testBit i

theorem below_countrZero (below : i < countrZero x) : x.val.testBit i = false := by
  have absent := List.not_of_lt_findIdx below
  rwa [List.getElem_range] at absent

theorem countrZero_le (bit : x.val.testBit i = true) : countrZero x ≤ i := by
  by_contra above
  rw [below_countrZero (not_le.mp above)] at bit
  cases bit

/-- A value that is not negative has its bits inside the type. -/
theorem bit_inside (nonneg : 0 ≤ x.val) (bit : x.val.testBit i = true) : i < x.type.bits := by
  have fits := (fits_iff nonneg).mp x.value.fits
  by_contra outside
  have high := (width_bits x.type).2.trans (not_lt.mp outside)
  rw [testBit_high nonneg fits high] at bit
  cases bit

theorem countrZero_bit (positive : 0 < x.val) : x.val.testBit (countrZero x) = true := by
  have nonneg := Int.le_of_lt positive
  have some : ∃ i, x.val.testBit i = true := by
    by_contra none
    push Not at none
    have zero : x.val = 0 := eq_of_testBit nonneg ((fits_iff nonneg).mp x.value.fits) le_rfl
      (Int.pow_pos two_pos) fun i _ => by simp [none i, testBit_eq 0 i]
    omega
  obtain ⟨i, bit⟩ := some
  have inside : countrZero x < (List.range x.type.bits).length := by
    rw [List.length_range]
    exact (countrZero_le bit).trans_lt (bit_inside nonneg bit)
  have found := @List.findIdx_getElem _ (fun i => x.val.testBit i) (List.range x.type.bits) inside
  have position := List.getElem_range inside
  exact (congrArg x.val.testBit position).symm.trans found

/-- The lowest bit depends on the value only. -/
theorem countrZero_congr (same : x.val = y.val) (positive : 0 < x.val) : countrZero x = countrZero y := by
  have bit := countrZero_bit positive
  have other := countrZero_bit (same ▸ positive)
  rw [same] at bit
  rw [← same] at other
  exact le_antisymm (countrZero_le other) (countrZero_le bit)

theorem unsigned_nonneg (unsigned : x.type.signed = false) : 0 ≤ x.val := by
  have low := x.value.fits.1
  rwa [IntType.lower, unsigned] at low

/-- A number that has no bit in common with its successor is one less than a power of two, if the sum is
exact or wraps to zero. -/
theorem carry_shape {low next : Number} (unsigned : low.type.signed = false)
    (added : low.add intBits (of low.type 1) = some next) (carries : (low.and intBits next).val = 0) :
    ∃ k, low.val + 1 = 2 ^ k := by
  have nonneg := unsigned_nonneg unsigned
  have bits : width low.type = low.type.bits := by
    rw [width, unsigned]
    rfl
  have below : low.val < 2 ^ low.type.bits := bits ▸ (fits_iff nonneg).mp low.value.fits
  have one : Fits low.type 1 := (fits_iff (by decide)).mpr (by
    rw [bits]
    exact one_lt_pow₀ one_lt_two low.type.positive.ne')
  rw [add_promoted (x := low) (y := of low.type 1) rfl rfl, of_val one] at added
  obtain ⟨sum, evaluated, rfl⟩ := Option.map_eq_some_iff.mp added
  have exactly (same : sum.val = low.val + 1) : ∃ k, low.val + 1 = 2 ^ k := by
    have positive : 0 ≤ (Number.mk (promote intBits low.type) sum).val := by
      change 0 ≤ sum.val
      omega
    rw [and_val intBits nonneg positive] at carries
    change low.val.land sum.val = 0 at carries
    rw [same] at carries
    generalize low.val = value at nonneg carries
    lift value to Nat using nonneg
    obtain ⟨k, power⟩ := lowest_bits (Int.natCast_eq_zero.mp carries)
    exact ⟨k, by exact_mod_cast power⟩
  cases signed : (promote intBits low.type).signed with
  | true =>
    have fits := fits_of_evaluate signed evaluated
    rw [evaluate_fits fits] at evaluated
    exact exactly (congrArg Value.val (Option.some_inj.mp evaluated)).symm
  | false =>
    rw [evaluate_unsigned signed] at evaluated
    by_cases wraps : low.val + 1 = 2 ^ low.type.bits
    · exact ⟨low.type.bits, wraps⟩
    · have fits : Fits low.type (low.val + 1) := (fits_iff (by omega)).mpr (by rw [bits]; omega)
      rw [convert_fits (fits_promote intBits fits)] at evaluated
      exact exactly (congrArg Value.val (Option.some_inj.mp evaluated)).symm

/-- A contiguous mask of an unsigned type, shifted to its lowest bit, is one less than a power of two. -/
theorem contiguous_shape (unsigned : x.type.signed = false)
    (contiguous : isContiguousMask intBits x = true) : ∃ k, x.val / 2 ^ countrZero x + 1 = 2 ^ k := by
  have nonneg := unsigned_nonneg unsigned
  have size : 0 ≤ x.val / 2 ^ countrZero x := Int.ediv_nonneg nonneg (Int.pow_pos two_pos).le
  have fits : Fits x.type (x.val / 2 ^ countrZero x) := (fits_iff size).mpr
    ((Int.ediv_le_self _ nonneg).trans_lt ((fits_iff nonneg).mp x.value.fits))
  unfold isContiguousMask at contiguous
  rw [shiftRight_val nonneg] at contiguous
  cases added : (of x.type (x.val / 2 ^ countrZero x)).add intBits (of x.type 1) with
  | none => simp [added] at contiguous
  | some next =>
    have carries : ((of x.type (x.val / 2 ^ countrZero x)).and intBits next).val = 0 := by
      simpa [added] using contiguous
    have lowUnsigned : (of x.type (x.val / 2 ^ countrZero x)).type.signed = false := unsigned
    obtain ⟨k, power⟩ := carry_shape lowUnsigned added carries
    rw [of_val fits] at power
    exact ⟨k, power⟩

/-- A field mask is a run of bits from its lowest bit on. -/
theorem field_shape (accepted : FieldMaskFor intBits mask register) :
    ∃ k, ∀ i, mask.val.testBit i = (decide (countrZero mask ≤ i) && decide (i < countrZero mask + k)) := by
  obtain ⟨valid, contiguous⟩ := accepted.2
  have nonneg := Int.le_of_lt valid
  have unsigned : Fits (makeUnsigned mask.type) mask.val :=
    fits_wider nonneg mask.value.fits (width_bits mask.type).2
  have same := of_val unsigned
  obtain ⟨k, power⟩ := contiguous_shape rfl contiguous
  rw [countrZero_congr same (same.symm ▸ valid), same] at power
  refine ⟨k, fun i => ?_⟩
  by_cases low : countrZero mask ≤ i
  · obtain ⟨j, rfl⟩ := Nat.exists_eq_add_of_le low
    have shape : mask.val / 2 ^ countrZero mask = ((2 ^ k - 1 : Nat) : Int) := by
      rw [Nat.cast_sub Nat.one_le_two_pow, Nat.cast_pow]
      exact eq_sub_of_add_eq power
    have bit : (((2 ^ k - 1 : Nat) : Int)).testBit j = decide (j < k) := Nat.testBit_two_pow_sub_one k j
    rw [← testBit_div, shape, bit]
    simp
  · rw [below_countrZero (not_le.mp low)]
    simp [low]

theorem countP_run (n k count : Nat) :
    (List.range count).countP (fun i => decide (n ≤ i) && decide (i < n + k)) =
      min count (n + k) - min count n := by
  induction count with
  | zero => simp
  | succ count ih =>
    rw [List.range_succ, List.countP_append, ih, List.countP_singleton]
    by_cases low : n ≤ count <;> by_cases high : count < n + k <;> simp [low, high] <;> omega

/-- The run is as long as the number of bits. -/
theorem field_bits (accepted : FieldMaskFor intBits mask register) (i : Nat) :
    mask.val.testBit i =
      (decide (countrZero mask ≤ i) && decide (i < countrZero mask + numberOfBits mask)) := by
  obtain ⟨k, run⟩ := field_shape accepted
  have nonneg := field_nonneg accepted
  have lowest := countrZero_bit accepted.1.1
  have positive : 0 < k := by
    rw [run] at lowest
    simp only [Bool.and_eq_true, decide_eq_true_eq] at lowest
    omega
  have last : mask.val.testBit (countrZero mask + k - 1) = true := by
    rw [run]
    simp only [Bool.and_eq_true, decide_eq_true_eq]
    omega
  have inside := bit_inside nonneg last
  have count : numberOfBits mask = k := by
    simp only [numberOfBits, run, countP_run]
    omega
  rw [run, count]

theorem numberOfBits_le (accepted : FieldMaskFor intBits mask register) :
    numberOfBits mask ≤ register.bits := by
  by_contra longer
  have last := field_bits accepted (countrZero mask + register.bits)
  have high := testBit_high (field_nonneg accepted) (field_below accepted)
    (Nat.le_add_left register.bits (countrZero mask))
  rw [high] at last
  have inside : countrZero mask + register.bits < countrZero mask + numberOfBits mask := by omega
  simp [inside] at last

end Masks

/-! ## One field -/

/-- An argument of `modify`, as it is written. -/
structure Field where
  mask : Number
  value : Int

namespace Field

/-- The mask has this bit. -/
def has (i : Nat) (field : Field) : Bool := field.mask.val.testBit i

/-- The bit of the value that goes here. -/
def puts (i : Nat) (field : Field) : Bool := field.has i && field.value.testBit (i - countrZero field.mask)

end Field

section OneField
variable {intBits : Nat} {register : Register} {mask : Number} {i : Nat}

theorem register_range (reg : Value register.type) : 0 ≤ reg.val ∧ reg.val < 2 ^ register.bits := by
  have fits := reg.fits
  rwa [Fits, register_upper] at fits

theorem register_bits {left right : Value register.type}
    (same : ∀ i < register.bits, left.val.testBit i = right.val.testBit i) : left = right := by
  have equal := eq_of_testBit (register_range left).1 (register_range left).2 (register_range right).1
    (register_range right).2 same
  cases left
  cases right
  simp only at equal
  subst equal
  rfl

/-- The value of a field where its mask is, computed in any type that has the bit. -/
theorem shifted_bit (type : IntType) (field : Field) (mask : Number) (same : mask.val = field.mask.val)
    (low : i < type.bits) :
    (((of type field.value).shiftLeft intBits (countrZero field.mask)).and intBits mask).val.testBit i =
      field.puts i := by
  have inside : i < (shiftLeft intBits (of type field.value) (countrZero field.mask)).type.bits :=
    low.trans_le (bits_promote intBits type)
  have kept : (of type field.value).val.testBit (i - countrZero field.mask) =
      field.value.testBit (i - countrZero field.mask) :=
    testBit_convert field.value ((Nat.sub_le i _).trans_lt low)
  rw [and_bit inside, shiftLeft_bit low, kept, same, Field.puts, Field.has]
  cases bit : field.mask.val.testBit i with
  | false => simp
  | true => simp [countrZero_le bit]

theorem write_bit (field : Field) (accepted : FieldMaskFor intBits field.mask register)
    (reg : Value register.type) (low : i < register.bits) :
    (write intBits field.mask reg field.value).val.testBit i =
      ((reg.val.testBit i && !field.has i) || field.puts i) := by
  have same : (of register.type field.mask.val).val = field.mask.val := of_field accepted
  have lowest : countrZero (of register.type field.mask.val) = countrZero field.mask :=
    countrZero_congr same (lt_of_lt_of_eq accepted.1.1 same.symm)
  have kept : i < (Number.and intBits (Number.mk register.type reg)
      ((of register.type field.mask.val).not intBits)).type.bits := 
    low.trans_le (bits_left intBits (Number.mk register.type reg) _)
  calc (write intBits field.mask reg field.value).val.testBit i
      = (((Number.mk register.type reg).and intBits ((of register.type field.mask.val).not intBits)).or intBits
          (((of register.type field.value).shiftLeft intBits
            (countrZero (of register.type field.mask.val))).and intBits
              (of register.type field.mask.val))).val.testBit i := testBit_convert _ low
    _ = ((reg.val.testBit i && !(of register.type field.mask.val).val.testBit i) || field.puts i) := by
        rw [lowest, or_bit kept, and_bit (x := Number.mk register.type reg) low, not_bit (x := of _ _) low,
          shifted_bit register.type field _ same low]
        rfl
    _ = ((reg.val.testBit i && !field.has i) || field.puts i) := by rw [same]; rfl

/-- A read returns the bits under the mask, shifted to the bottom. -/
theorem read_val (accepted : FieldMaskFor intBits mask register) (reg : Value register.type) :
    (read intBits mask reg).val = reg.val.land mask.val / 2 ^ countrZero mask := by
  have same : (of register.type mask.val).val = mask.val := of_field accepted
  have lowest : countrZero (of register.type mask.val) = countrZero mask :=
    countrZero_congr same (lt_of_lt_of_eq accepted.1.1 same.symm)
  have nonneg : 0 ≤ (Number.mk register.type reg).val := (register_range reg).1
  have maskNonneg : 0 ≤ (of register.type mask.val).val := same.symm ▸ field_nonneg accepted
  obtain ⟨least, below⟩ := land_bound (register_range reg).1 (register_range reg).2 (field_nonneg accepted)
  have field : ((Number.mk register.type reg).and intBits (of register.type mask.val)).val =
      reg.val.land mask.val := by
    rw [and_val intBits nonneg maskNonneg, same]
    rfl
  have power : (0 : Int) ≤ 2 ^ countrZero mask := (Int.pow_pos two_pos).le
  calc (read intBits mask reg).val
      = (((Number.mk register.type reg).and intBits (of register.type mask.val)).shiftRight intBits
          (countrZero (of register.type mask.val))).val % 2 ^ register.bits := convert_register _ _
    _ = (reg.val.land mask.val / 2 ^ countrZero mask) % 2 ^ register.bits := by
        rw [lowest, shiftRight_val (field.symm ▸ least), field]
    _ = reg.val.land mask.val / 2 ^ countrZero mask :=
        Int.emod_eq_of_lt (Int.ediv_nonneg least power) ((Int.ediv_le_self _ least).trans_lt below)

/-- A read returns a value modulo the number of bits, if the bits of the field are those of the value. -/
theorem read_value (accepted : FieldMaskFor intBits mask register) (reg : Value register.type) (value : Int)
    (stored : ∀ i < register.bits, mask.val.testBit i = true →
      reg.val.testBit i = value.testBit (i - countrZero mask)) :
    (read intBits mask reg).val = value % 2 ^ numberOfBits mask := by
  have power : (0 : Int) < 2 ^ numberOfBits mask := Int.pow_pos two_pos
  have fewer : (2 : Int) ^ numberOfBits mask ≤ 2 ^ register.bits :=
    pow_le_pow_right₀ one_le_two (numberOfBits_le accepted)
  obtain ⟨nonneg, below⟩ := register_range (read intBits mask reg)
  refine eq_of_testBit nonneg below (Int.emod_nonneg value power.ne')
    ((Int.emod_lt_of_pos value power).trans_le fewer) fun i _ => ?_
  rw [read_val accepted, testBit_div, Int.testBit_land, testBit_mod, field_bits accepted]
  by_cases inside : i < numberOfBits mask
  · have bit : mask.val.testBit (countrZero mask + i) = true := by
      rw [field_bits accepted]
      simp [inside]
    rw [stored _ (lt_of_not_ge fun high => ?_) bit]
    · simp [inside]
    · rw [testBit_high (field_nonneg accepted) (field_below accepted) high] at bit
      cases bit
  · simp [inside]

end OneField

/-! ## Several fields -/

section Fields
variable {intBits : Nat} {register : Register} {field first : Field} {fields rest : List Field} {i : Nat}

/-- One `write` after the other. -/
def writes (intBits : Nat) (reg : Value register.type) (fields : List Field) : Value register.type :=
  fields.foldl (fun reg field => write intBits field.mask reg field.value) reg

/-- `modify(reg, bits<Mask>(value), ..)`. -/
def modifyFields (intBits : Nat) (reg : Value register.type) (first : Field) (rest : List Field) :
    Option (Value register.type) := do
  let first ← bits intBits first.mask first.value
  let rest ← rest.mapM fun field => bits intBits field.mask field.value
  modify intBits reg first rest

/-- The masks are field masks for the register. -/
def Accepted (intBits : Nat) (register : Register) (fields : List Field) : Prop :=
  ∀ field ∈ fields, FieldMaskFor intBits field.mask register

instance : Decidable (Accepted intBits register fields) :=
  inferInstanceAs (Decidable (∀ field ∈ fields, _))

/-- No bit of the register is in two of the masks. -/
def ApartFields (fields : List Field) : Prop := Apart (fields.map Field.mask)

instance : Decidable (ApartFields fields) := inferInstanceAs (Decidable (Apart _))

/-- The fields have no bit in common. -/
def Separate (field other : Field) : Prop := ∀ i, field.has i = true → other.has i = false

instance : Std.Symm Separate where
  symm field other separate i has := by
    by_contra both
    rw [separate i (Bool.eq_true_of_not_eq_false both)] at has
    cases has

theorem separate_fields (apart : ApartFields fields) : fields.Pairwise Separate := by
  refine (List.pairwise_map.mp apart).imp fun {field other} disjoint i has => ?_
  have both := congrArg (Int.testBit · i) disjoint
  simp only [Int.testBit_land, testBit_eq 0 i] at both
  change field.mask.val.testBit i = true at has
  change other.mask.val.testBit i = false
  simpa [has] using both

/-- What all the fields together put at a bit that no earlier field has put anything at. -/
theorem writes_bit (accepted : Accepted intBits register fields) (apart : fields.Pairwise Separate)
    (reg : Value register.type) (low : i < register.bits) :
    (writes intBits reg fields).val.testBit i =
      ((reg.val.testBit i && !fields.any (Field.has i)) || fields.any (Field.puts i)) := by
  induction fields generalizing reg with
  | nil => simp [writes]
  | cons field fields ih =>
    obtain ⟨first, others⟩ := List.forall_mem_cons.mp accepted
    obtain ⟨disjoint, rest⟩ := List.pairwise_cons.mp apart
    have wrote := write_bit field first reg low
    have later := ih others rest (write intBits field.mask reg field.value)
    rw [wrote] at later
    refine later.trans ?_
    rw [List.any_cons, List.any_cons]
    cases puts : field.puts i with
    | false => simp [Bool.and_assoc]
    | true =>
      have has : field.has i = true := (Bool.and_eq_true_iff.mp puts).1
      have none : fields.any (Field.has i) = false :=
        List.any_eq_false.mpr fun other member => by simp [disjoint other member i has]
      simp [none]

/-- The field that has a bit decides what is put there. -/
theorem any_puts (apart : fields.Pairwise Separate) (member : field ∈ fields) (has : field.has i = true) :
    fields.any (Field.has i) = true ∧
      fields.any (Field.puts i) = field.value.testBit (i - countrZero field.mask) := by
  refine ⟨List.any_eq_true.mpr ⟨field, member, has⟩, ?_⟩
  have own : field.puts i = field.value.testBit (i - countrZero field.mask) := by
    rw [Field.puts, has, Bool.true_and]
  rw [← own, Bool.eq_iff_iff, List.any_eq_true]
  constructor
  · rintro ⟨other, otherMember, puts⟩
    by_cases same : field = other
    · rwa [same]
    · have otherHas : other.has i = true := (Bool.and_eq_true_iff.mp puts).1
      rw [apart.forall member otherMember same i has] at otherHas
      cases otherHas
  · intro puts
    exact ⟨field, member, puts⟩

/-- A bit that no mask has. -/
theorem any_none (outside : ∀ field ∈ fields, field.mask.val.testBit i = false) :
    fields.any (Field.has i) = false ∧ fields.any (Field.puts i) = false := by
  refine ⟨List.any_eq_false.mpr fun field member => ?_, List.any_eq_false.mpr fun field member => ?_⟩
  · simp [Field.has, outside field member]
  · simp [Field.puts, Field.has, outside field member]

/-- The order of the fields does not matter. -/
theorem writes_perm (accepted : Accepted intBits register fields) (apart : fields.Pairwise Separate)
    (reg : Value register.type) (order : List Field) (same : order.Perm fields) :
    writes intBits reg order = writes intBits reg fields := by
  have ordered : Accepted intBits register order := fun field member =>
    accepted field (same.mem_iff.mp member)
  have orderedApart : order.Pairwise Separate := (same.pairwise_iff fun {_ _} => symm).mpr apart
  have any (holds : Field → Bool) : order.any holds = fields.any holds := by
    rw [Bool.eq_iff_iff, List.any_eq_true, List.any_eq_true]
    simp only [same.mem_iff]
  refine register_bits fun i low => ?_
  rw [writes_bit ordered orderedApart reg low, writes_bit accepted apart reg low, any, any]

/-! ## `modify` -/

/-- The object for a field with a mask of an unsigned type. -/
def encode (intBits : Nat) (field : Field) : Bits where
  mask := field.mask
  encoded := convert field.mask.type
    (((of field.mask.type field.value).shiftLeft intBits (countrZero field.mask)).and intBits field.mask).val

theorem bits_unsigned (accepted : FieldMaskFor intBits field.mask register)
    (unsigned : field.mask.type.signed = false) :
    bits intBits field.mask field.value = some (encode intBits field) := by
  rw [bits, if_neg (not_not.mpr accepted.2), if_neg (by simp [unsigned])]
  rfl

theorem bits_signed (signed : field.mask.type.signed = true) :
    bits intBits field.mask field.value = none := by
  simp [bits, signed]

theorem encode_bit (unsigned : field.mask.type.signed = false) (i : Nat) :
    (encode intBits field).encoded.val.testBit i = field.puts i := by
  by_cases low : i < field.mask.type.bits
  · exact (testBit_convert _ low).trans (shifted_bit field.mask.type field field.mask rfl low)
  · have outside (x : Number) (same : x.type = field.mask.type) : x.val.testBit i = false := by
      by_contra bit
      have nonneg := @unsigned_nonneg x (by rw [same]; exact unsigned)
      have inside := bit_inside nonneg (Bool.eq_true_of_not_eq_false bit)
      rw [same] at inside
      exact low inside
    have encoded := outside ⟨_, (encode intBits field).encoded⟩ rfl
    have mask := outside field.mask rfl
    rw [Field.puts, Field.has, mask]
    exact encoded

theorem mapM_some {A B : Type} {f : A → Option B} {g : A → B} {items : List A}
    (each : ∀ item ∈ items, f item = some (g item)) : items.mapM f = some (items.map g) := by
  induction items with
  | nil => rfl
  | cons item items ih =>
    obtain ⟨first, others⟩ := List.forall_mem_cons.mp each
    rw [List.mapM_cons, first, ih others]
    rfl

theorem mapM_none {A B : Type} {f : A → Option B} {item : A} {items : List A} (member : item ∈ items)
    (none : f item = none) : items.mapM f = Option.none := by
  induction items with
  | nil => cases member
  | cons first items ih =>
    rw [List.mapM_cons]
    cases List.mem_cons.mp member with
    | inl same => rw [← same, none]; rfl
    | inr later => rw [ih later]; cases f first <;> rfl

/-- What `modify` stores if its checks pass. -/
def stored (intBits : Nat) (reg : Value register.type) (first : Bits) (rest : List Bits) :
    Value register.type :=
  let mask := Number.mk _ (maskOr intBits register first.mask (rest.map Bits.mask))
  let encoded := (rest.map fun next => ⟨_, next.encoded⟩).foldl (Number.or intBits) ⟨_, first.encoded⟩
  let kept := (Number.mk _ reg).and intBits (mask.not intBits)
  convert register.type (kept.or intBits encoded).val

theorem modify_checked {first : Bits} {rest : List Bits} (reg : Value register.type)
    (accepted : FieldMaskFor intBits first.mask register ∧
      ∀ next ∈ rest, FieldMaskFor intBits next.mask register)
    (checked : MasksMatch intBits register first.mask (rest.map Bits.mask)) :
    modify intBits reg first rest = some (stored intBits reg first rest) := by
  unfold Mmio.modify
  rw [if_neg (not_not.mpr accepted), if_neg (not_not.mpr checked)]
  rfl

theorem maskOr_bit (accepted : Accepted intBits register (first :: rest)) (low : i < register.bits) :
    (maskOr intBits register first.mask (rest.map Field.mask)).val.testBit i =
      (first :: rest).any (Field.has i) := by
  obtain ⟨head, others⟩ := List.forall_mem_cons.mp accepted
  have nonneg : ∀ mask ∈ rest.map Field.mask, 0 ≤ mask.val := by
    intro mask member
    obtain ⟨field, included, rfl⟩ := List.mem_map.mp member
    exact field_nonneg (others field included)
  have folded := (@foldl_or_bit intBits _ _ (field_nonneg head) nonneg).2 i
  rw [maskOr, testBit_convert _ low, folded, List.any_cons, List.any_map]
  rfl

theorem encoded_bit (unsigned : ∀ field ∈ first :: rest, field.mask.type.signed = false) (i : Nat) :
    (((rest.map (encode intBits)).map fun next => Number.mk _ next.encoded).foldl (Number.or intBits)
      ⟨_, (encode intBits first).encoded⟩).val.testBit i = (first :: rest).any (Field.puts i) := by
  obtain ⟨head, others⟩ := List.forall_mem_cons.mp unsigned
  have nonneg : ∀ x ∈ (rest.map (encode intBits)).map (fun next => Number.mk _ next.encoded), 0 ≤ x.val := by
    intro x member
    obtain ⟨next, included, rfl⟩ := List.mem_map.mp member
    obtain ⟨field, source, rfl⟩ := List.mem_map.mp included
    exact @unsigned_nonneg ⟨_, (encode intBits field).encoded⟩ (others field source)
  have headNonneg := @unsigned_nonneg ⟨_, (encode intBits first).encoded⟩ head
  rw [(foldl_or_bit headNonneg nonneg).2 i, List.any_cons, List.any_cons, List.any_map, List.any_map]
  have tail : rest.any (fun field => (encode intBits field).encoded.val.testBit i) =
      rest.any (Field.puts i) := by
    rw [Bool.eq_iff_iff, List.any_eq_true, List.any_eq_true]
    exact exists_congr fun field => and_congr_right fun member => by rw [encode_bit (others field member)]
  exact congrArg₂ _ (encode_bit head i) tail

/-- The bits of the register after `modify`. -/
theorem modify_bit (accepted : Accepted intBits register (first :: rest))
    (apart : ApartFields (first :: rest))
    (unsigned : ∀ field ∈ first :: rest, field.mask.type.signed = false)
    (reg : Value register.type) :
    ∃ after, modifyFields intBits reg first rest = some after ∧ ∀ i < register.bits,
      after.val.testBit i = ((reg.val.testBit i && !(first :: rest).any (Field.has i)) ||
        (first :: rest).any (Field.puts i)) := by
  have masks : ∀ mask ∈ first.mask :: rest.map Field.mask, FieldMaskFor intBits mask register := by
    intro mask member
    obtain ⟨field, included, rfl⟩ := List.mem_map.mp (List.map_cons ▸ member : mask ∈ (first :: rest).map _)
    exact accepted field included
  obtain ⟨head, others⟩ := List.forall_mem_cons.mp accepted
  obtain ⟨headUnsigned, othersUnsigned⟩ := List.forall_mem_cons.mp unsigned
  have built : rest.mapM (fun field => bits intBits field.mask field.value) = some (rest.map (encode intBits)) :=
    mapM_some fun field member => bits_unsigned (others field member) (othersUnsigned field member)
  have sameMasks : (rest.map (encode intBits)).map Bits.mask = rest.map Field.mask := by
    rw [List.map_map]
    rfl
  have checked : MasksMatch intBits register first.mask (rest.map Field.mask) := by
    have apartMasks := (apart_iff masks).mp apart
    exact (masksMatch_iff masks).mpr ⟨apart_computed masks apartMasks, apartMasks ▸ Nat.dvd_zero _⟩
  have allAccepted : FieldMaskFor intBits (encode intBits first).mask register ∧
      ∀ next ∈ rest.map (encode intBits), FieldMaskFor intBits next.mask register := by
    refine ⟨head, fun next member => ?_⟩
    obtain ⟨field, included, rfl⟩ := List.mem_map.mp member
    exact others field included
  refine ⟨stored intBits reg (encode intBits first) (rest.map (encode intBits)), ?_, fun i low => ?_⟩
  · rw [modifyFields, bits_unsigned head headUnsigned, built]
    exact modify_checked reg allAccepted (sameMasks.symm ▸ checked)
  · have inside : i < ((Number.mk _ reg).and intBits ((Number.mk register.type
        (maskOr intBits register first.mask (rest.map Field.mask))).not intBits)).type.bits :=
      low.trans_le (bits_left intBits (Number.mk register.type reg) _)
    calc (stored intBits reg (encode intBits first) (rest.map (encode intBits))).val.testBit i
        = (((Number.mk _ reg).and intBits ((Number.mk register.type
            (maskOr intBits register first.mask (rest.map Field.mask))).not intBits)).or intBits
              (((rest.map (encode intBits)).map fun next => Number.mk _ next.encoded).foldl
                (Number.or intBits) ⟨_, (encode intBits first).encoded⟩)).val.testBit i := by
          rw [← sameMasks]
          exact testBit_convert _ low
      _ = ((reg.val.testBit i && !(maskOr intBits register first.mask (rest.map Field.mask)).val.testBit i) ||
            (first :: rest).any (Field.puts i)) := by
          rw [or_bit inside, and_bit (x := Number.mk _ reg) low, not_bit (x := Number.mk _ _) low,
            encoded_bit unsigned]
          rfl
      _ = ((reg.val.testBit i && !(first :: rest).any (Field.has i)) ||
            (first :: rest).any (Field.puts i)) := by rw [maskOr_bit accepted low]

/-! ## The claims of `modify` -/

/-- What is expected of `modify`: it does what the writes do in any order, every field reads back its value,
and the other bits are as they were. -/
structure WritesFields (intBits : Nat) (reg : Value register.type) (fields : List Field)
    (after : Value register.type) : Prop where
  anyOrder : ∀ order : List Field, order.Perm fields → writes intBits reg order = after
  reads : ∀ field ∈ fields,
    (read intBits field.mask after).val = field.value % 2 ^ numberOfBits field.mask
  outside : ∀ i, (∀ field ∈ fields, field.mask.val.testBit i = false) →
    after.val.testBit i = reg.val.testBit i

theorem modify_unsigned (accepted : Accepted intBits register (first :: rest))
    (apart : ApartFields (first :: rest))
    (unsigned : ∀ field ∈ first :: rest, field.mask.type.signed = false)
    (reg : Value register.type) :
    ∃ after, modifyFields intBits reg first rest = some after ∧
      WritesFields intBits reg (first :: rest) after := by
  obtain ⟨after, stores, bits⟩ := modify_bit accepted apart unsigned reg
  have separate := separate_fields apart
  refine ⟨after, stores, fun order same => ?_, fun field member => ?_, fun i outside => ?_⟩
  · rw [writes_perm accepted separate reg order same]
    refine register_bits fun i low => ?_
    rw [writes_bit accepted separate reg low, bits i low]
  · refine read_value (accepted field member) after field.value fun i low has => ?_
    obtain ⟨any, puts⟩ := any_puts separate member has
    rw [bits i low, any, puts]
    simp
  · by_cases low : i < register.bits
    · obtain ⟨has, puts⟩ := any_none outside
      rw [bits i low, has, puts]
      simp
    · have high (value : Value register.type) : value.val.testBit i = false :=
        testBit_high (register_range value).1 (register_range value).2 (not_lt.mp low)
      rw [high, high]

/-- An object of `bits` for a mask of a signed type cannot be built. -/
theorem modify_signed (member : field ∈ first :: rest) (signed : field.mask.type.signed = true)
    (reg : Value register.type) : modifyFields intBits reg first rest = none := by
  have absent := @bits_signed intBits field signed
  unfold modifyFields
  cases List.mem_cons.mp member with
  | inl same => rw [← same, absent]; rfl
  | inr later =>
    rw [mapM_none later absent]
    cases bits intBits first.mask first.value <;> rfl

/-- **`modify` equals independent writes** exactly where the mask constants are of unsigned types. -/
theorem modify_equals_writes_iff (accepted : Accepted intBits register (first :: rest))
    (apart : ApartFields (first :: rest)) (reg : Value register.type) :
    (∃ after, modifyFields intBits reg first rest = some after ∧
        WritesFields intBits reg (first :: rest) after) ↔
      ∀ field ∈ first :: rest, field.mask.type.signed = false := by
  constructor
  · rintro ⟨after, stores, _⟩ field member
    by_contra signed
    rw [modify_signed member (Bool.eq_true_of_not_eq_false signed) reg] at stores
    cases stores
  · intro unsigned
    exact modify_unsigned accepted apart unsigned reg

end Fields

/-! ## A register of 8 bits -/

theorem modify_equals_writes_iff_testing :
    (∃ after, modifyFields 32 (convert testingRegister.type 0xFF) ⟨testingMask 0x0F, 5⟩
          [⟨testingMask 0x30, 2⟩] = some after ∧
        WritesFields 32 (convert testingRegister.type 0xFF)
          [⟨testingMask 0x0F, 5⟩, ⟨testingMask 0x30, 2⟩] after) ↔
      ∀ field ∈ [(⟨testingMask 0x0F, 5⟩ : Field), ⟨testingMask 0x30, 2⟩], field.mask.type.signed = false :=
  modify_equals_writes_iff (by decide) (by decide) (convert testingRegister.type 0xFF)

theorem int32_positive : 0 < 32 := by decide

/-- `int`. -/
def int32 : IntType := ⟨32, true, int32_positive⟩

/-- A literal such as 0x0F is of type `int`: `write` takes it, `bits` does not. -/
theorem signed_mask_unusable :
    let field : Field := ⟨of int32 0x0F, 5⟩
    let reg := convert testingRegister.type 0
    Accepted 32 testingRegister [field] ∧ ApartFields [field] ∧
      modifyFields 32 reg field [] = none ∧ (write 32 field.mask reg field.value).val = 5 ∧
      ¬ ∃ after, modifyFields 32 reg field [] = some after ∧ WritesFields 32 reg [field] after := by
  intro field reg
  have rejected : modifyFields 32 reg field [] = none := modify_signed List.mem_cons_self rfl reg
  refine ⟨by decide, by decide, rejected, by decide +kernel, ?_⟩
  rintro ⟨after, stores, _⟩
  rw [rejected] at stores
  cases stores

end Emblib.MmioModify
