import Emblib.Library.Bitwise

/-! Registers whose fields are read and written through masks. A mask is a constant of any integer type. A
call that does not compile has no result. The register is plain memory. -/
namespace Emblib.Mmio
open Integers Bitwise Number

/-- An argument of `some_register`: an unsigned type. -/
structure Register where
  bits : Nat
  positive : 0 < bits

abbrev Register.type (register : Register) : IntType := ⟨register.bits, false, register.positive⟩

/-- `std::countr_zero`. -/
def countrZero (x : Number) : Nat := (List.range x.type.bits).findIdx fun i => x.val.testBit i

/-- `std::make_unsigned_t`. -/
def makeUnsigned (type : IntType) : IntType := { type with signed := false }

variable (intBits : Nat)

/-! ## Masks -/

/-- `detail::is_contiguous_mask`. -/
def isContiguousMask (mask : Number) : Bool :=
  let x := of mask.type (mask.shiftRight intBits (countrZero mask)).val
  match x.add intBits (of mask.type 1) with
  | none => false
  | some next => (x.and intBits next).val == 0

def ValidMask (mask : Number) : Prop := 0 < mask.val

def FieldMask (mask : Number) : Prop :=
  ValidMask mask ∧ isContiguousMask intBits (of (makeUnsigned mask.type) mask.val)

/-- The last conjunct is `std::in_range`. -/
def MaskFor (mask : Number) (register : Register) : Prop :=
  ValidMask mask ∧ Fits register.type mask.val

def FieldMaskFor (mask : Number) (register : Register) : Prop :=
  MaskFor mask register ∧ FieldMask intBits mask

instance (mask : Number) : Decidable (ValidMask mask) := inferInstanceAs (Decidable (_ < _))

instance (mask : Number) : Decidable (FieldMask intBits mask) := inferInstanceAs (Decidable (_ ∧ _))

instance (mask : Number) (register : Register) : Decidable (MaskFor mask register) :=
  inferInstanceAs (Decidable (_ ∧ _))

instance (mask : Number) (register : Register) : Decidable (FieldMaskFor intBits mask register) :=
  inferInstanceAs (Decidable (_ ∧ _))

section Access
variable {register : Register}

/-! ## `runtime::read`, `runtime::write` -/

def runtimeRead (reg mask : Value register.type) : Value register.type :=
  let field := (Number.mk _ reg).and intBits ⟨_, mask⟩
  convert register.type (field.shiftRight intBits (countrZero ⟨_, mask⟩)).val

def runtimeWrite (reg mask value : Value register.type) : Value register.type :=
  let kept := (Number.mk _ reg).and intBits ((Number.mk _ mask).not intBits)
  let shifted := (Number.mk _ value).shiftLeft intBits (countrZero ⟨_, mask⟩)
  convert register.type (kept.or intBits (shifted.and intBits ⟨_, mask⟩)).val

/-! ## `read`, `write` -/

/-- `read<Mask>`, which requires `field_mask_for`. -/
def read (mask : Number) (reg : Value register.type) : Value register.type :=
  runtimeRead intBits reg (convert register.type mask.val)

/-- `write<Mask>`, which requires `field_mask_for`. The argument is converted to the type of the
register. -/
def write (mask : Number) (reg : Value register.type) (value : Int) : Value register.type :=
  runtimeWrite intBits reg (convert register.type mask.val) (convert register.type value)

/-! ## `bits`, `modify` -/

/-- An object of `bits<Mask>`. -/
structure Bits where
  mask : Number
  encoded : Value mask.type

/-- `bits<Mask>(v)`. The argument is converted to the type of the mask. -/
def bits (mask : Number) (v : Int) : Option Bits :=
  if ¬ FieldMask intBits mask then
    none
  else if mask.type.signed then
    -- `std::countr_zero(mask)`: there is none for a signed type
    none
  else
    let offset := countrZero mask
    let shifted := (of mask.type v).shiftLeft intBits offset
    some { mask, encoded := convert mask.type (shifted.and intBits mask).val }

/-- `mask_or`. -/
def maskOr (register : Register) (first : Number) (rest : List Number) : Value register.type :=
  convert register.type (rest.foldl (Number.or intBits) first).val

/-- `mask_sum`, which is no constant if the sum overflows. -/
def maskSum (register : Register) (first : Number) (rest : List Number) : Option (Value register.type) := do
  let masks := rest.map fun mask => of register.type mask.val
  let sum ← masks.foldlM (Number.add intBits) (of register.type first.val)
  return convert register.type sum.val

/-- The masks pass the `static_assert` that is to find overlapping ones. -/
def MasksMatch (register : Register) (first : Number) (rest : List Number) : Prop :=
  (maskSum intBits register first rest).map Value.val = some (maskOr intBits register first rest).val

instance (first : Number) (rest : List Number) : Decidable (MasksMatch intBits register first rest) :=
  inferInstanceAs (Decidable (_ = _))

def modify (reg : Value register.type) (first : Bits) (rest : List Bits) : Option (Value register.type) :=
  if ¬ (FieldMaskFor intBits first.mask register ∧
      ∀ next ∈ rest, FieldMaskFor intBits next.mask register) then
    none
  else if ¬ MasksMatch intBits register first.mask (rest.map Bits.mask) then
    none
  else
    let mask := Number.mk _ (maskOr intBits register first.mask (rest.map Bits.mask))
    let encoded := (rest.map fun next => ⟨_, next.encoded⟩).foldl (Number.or intBits) ⟨_, first.encoded⟩
    let kept := (Number.mk _ reg).and intBits (mask.not intBits)
    some (convert register.type (kept.or intBits encoded).val)

end Access
end Emblib.Mmio
