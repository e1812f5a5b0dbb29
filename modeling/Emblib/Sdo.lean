import Mathlib.Logic.Basic
import Emblib.Can

/-! The frames of an SDO transfer as they are on the wire, and the values that fit into one.
The target is little-endian and allocates bit-fields from the lowest bit on. -/
namespace Emblib.Sdo
open Can

/-! ## Command specifiers and abort codes -/

/-- `sdo_cs_codes`. -/
def clientInitWrite : BitVec 3 := 1

def serverInitWrite : BitVec 3 := 3

def clientInitRead : BitVec 3 := 2

def serverInitRead : BitVec 3 := 2

def csAbort : BitVec 3 := 4

inductive AbortCode where
  | invalidCs
  | unsupportedAccess
  | readFromWriteOnly
  | writeToReadOnly
  | objectNotFound
  | hardwareError
  | dataTypeMismatch
  | valueRangeExceeded
  | valueTooHigh
  | valueTooLow
  | generalError
  | dataStoreError
  | localControlError
  | stateError
  | noDataAvailable
  deriving DecidableEq

/-- The underlying values of `sdo_abort_code`. -/
def AbortCode.toUnderlying : AbortCode → BitVec 32
  | .invalidCs => 0x05040001
  | .unsupportedAccess => 0x06010000
  | .readFromWriteOnly => 0x06010001
  | .writeToReadOnly => 0x06010002
  | .objectNotFound => 0x06020000
  | .hardwareError => 0x06060000
  | .dataTypeMismatch => 0x06070010
  | .valueRangeExceeded => 0x06090030
  | .valueTooHigh => 0x06090031
  | .valueTooLow => 0x06090032
  | .generalError => 0x08000000
  | .dataStoreError => 0x08000020
  | .localControlError => 0x08000021
  | .stateError => 0x08000022
  | .noDataAvailable => 0x08000024

/-! ## Messages -/

/-- `expedited_sdo_data`. -/
abbrev Data := Vector Byte 4

structure ExpeditedSdo where
  dataSizeIndicated : BitVec 1 := 0
  expeditedTransfer : BitVec 1 := 0
  dataEmptyBytes : BitVec 2 := 0
  reserved : BitVec 1 := 0
  cs : BitVec 3 := 0
  index : BitVec 16 := 0
  subindex : BitVec 8 := 0
  data : Data := #v[0, 0, 0, 0]

/-- `from_payload<expedited_sdo>`. The first byte holds five bit-fields. -/
def ExpeditedSdo.fromPayload (payload : Payload) : ExpeditedSdo where
  dataSizeIndicated := payload[0].extractLsb' 0 1
  expeditedTransfer := payload[0].extractLsb' 1 1
  dataEmptyBytes := payload[0].extractLsb' 2 2
  reserved := payload[0].extractLsb' 4 1
  cs := payload[0].extractLsb' 5 3
  index := payload[2] ++ payload[1]
  subindex := payload[3]
  data := #v[payload[4], payload[5], payload[6], payload[7]]

/-- `to_payload<expedited_sdo>`. -/
def ExpeditedSdo.toPayload (message : ExpeditedSdo) : Payload :=
  #v[message.cs ++ message.reserved ++ message.dataEmptyBytes ++ message.expeditedTransfer ++
      message.dataSizeIndicated,
    message.index.extractLsb' 0 8, message.index.extractLsb' 8 8, message.subindex,
    message.data[0], message.data[1], message.data[2], message.data[3]]

/-- `abort_sdo`, as its constructor leaves it. -/
structure AbortSdo where
  index : BitVec 16
  subindex : BitVec 8
  errorCode : AbortCode

/-- `to_payload<abort_sdo>`. The first byte holds the command specifier above five zeros. -/
def AbortSdo.toPayload (message : AbortSdo) : Payload :=
  let code := message.errorCode.toUnderlying
  #v[csAbort ++ (0 : BitVec 5), message.index.extractLsb' 0 8, message.index.extractLsb' 8 8,
    message.subindex, code.extractLsb' 0 8, code.extractLsb' 8 8, code.extractLsb' 16 8,
    code.extractLsb' 24 8]

/-! ## Values -/

/-- The alternatives of `od_value`. -/
inductive Scalar where
  | bool
  | int8
  | int16
  | int32
  | uint8
  | uint16
  | uint32
  | float
  deriving DecidableEq

/-- A `float` is known by the bits of its object representation, which is all that is
copied here. -/
def Scalar.Carrier : Scalar → Type
  | .bool => Bool
  | .int8 => BitVec 8
  | .int16 => BitVec 16
  | .int32 => BitVec 32
  | .uint8 => BitVec 8
  | .uint16 => BitVec 16
  | .uint32 => BitVec 32
  | .float => BitVec 32

instance : (type : Scalar) → DecidableEq type.Carrier
  | .bool => inferInstanceAs (DecidableEq Bool)
  | .int8 => inferInstanceAs (DecidableEq (BitVec 8))
  | .int16 => inferInstanceAs (DecidableEq (BitVec 16))
  | .int32 => inferInstanceAs (DecidableEq (BitVec 32))
  | .uint8 => inferInstanceAs (DecidableEq (BitVec 8))
  | .uint16 => inferInstanceAs (DecidableEq (BitVec 16))
  | .uint32 => inferInstanceAs (DecidableEq (BitVec 32))
  | .float => inferInstanceAs (DecidableEq (BitVec 32))

/-- `od_value`, a value of one of its alternatives. -/
structure OdValue where
  type : Scalar
  value : type.Carrier
  deriving DecidableEq

inductive OdValueType where
  | boolean
  | int8
  | int16
  | int32
  | uint8
  | uint16
  | uint32
  | float32
  | exec
  | string
  deriving DecidableEq

/-- `od_data_type_sizes`. -/
def odDataTypeSizes : OdValueType → ℕ
  | .boolean => 1
  | .int8 => 1
  | .int16 => 2
  | .int32 => 4
  | .uint8 => 1
  | .uint16 => 2
  | .uint32 => 4
  | .float32 => 4
  | .exec => 4
  | .string => 4

/-- `memcpy` of the first bytes into an integer. -/
def word16 (raw : Data) : BitVec 16 := raw[1] ++ raw[0]

def byte2 (raw : Data) : Byte := raw[2]

def word32 (raw : Data) : BitVec 32 := raw[3] ++ raw[2] ++ raw[1] ++ raw[0]

def makeOdValue (raw : Data) : OdValueType → OdValue
  | .boolean => ⟨.bool, raw[0] != 0⟩
  | .int8 => ⟨.int8, raw[0]⟩
  | .int16 => ⟨.int16, word16 raw⟩
  | .int32 => ⟨.int32, word32 raw⟩
  | .uint8 => ⟨.uint8, raw[0]⟩
  | .uint16 => ⟨.uint16, word16 raw⟩
  | .uint32 => ⟨.uint32, word32 raw⟩
  | .exec => ⟨.uint32, word32 raw⟩
  | .float32 => ⟨.float, word32 raw⟩
  | .string => ⟨.uint32, (0 : BitVec 32)⟩

/-- `memcpy` of an integer into the first bytes of the zeroed data. -/
def bytes8 (value : BitVec 8) : Data := #v[value, 0, 0, 0]

def bytes16 (value : BitVec 16) : Data := #v[value.extractLsb' 0 8, value.extractLsb' 8 8, 0, 0]

def bytes32 (value : BitVec 32) : Data :=
  #v[value.extractLsb' 0 8, value.extractLsb' 8 8, value.extractLsb' 16 8, value.extractLsb' 24 8]

/-- The object representation of a `bool`. -/
def boolByte (value : Bool) : BitVec 8 := if value then 1 else 0

def toRaw : OdValue → Data
  | ⟨.bool, value⟩ => bytes8 (boolByte value)
  | ⟨.int8, value⟩ => bytes8 value
  | ⟨.int16, value⟩ => bytes16 value
  | ⟨.int32, value⟩ => bytes32 value
  | ⟨.uint8, value⟩ => bytes8 value
  | ⟨.uint16, value⟩ => bytes16 value
  | ⟨.uint32, value⟩ => bytes32 value
  | ⟨.float, value⟩ => bytes32 value

/-! ## Both messages carry the address in the same bytes -/

/-- The bytes of the index and the subindex. -/
def addressBytes (payload : Payload) : Byte × Byte × Byte := (payload[1], payload[2], payload[3])

theorem fromPayload_low (payload : Payload) :
    (ExpeditedSdo.fromPayload payload).index.extractLsb' 0 8 = payload[1] :=
  BitVec.extractLsb'_append_eq_right

theorem fromPayload_high (payload : Payload) :
    (ExpeditedSdo.fromPayload payload).index.extractLsb' 8 8 = payload[2] :=
  BitVec.extractLsb'_append_eq_left

theorem expedited_address (payload : Payload) (message : ExpeditedSdo)
    (index : message.index = (ExpeditedSdo.fromPayload payload).index)
    (subindex : message.subindex = (ExpeditedSdo.fromPayload payload).subindex) :
    addressBytes message.toPayload = addressBytes payload := by
  have low := fromPayload_low payload
  have high := fromPayload_high payload
  rw [← index] at low high
  have last : message.subindex = payload[3] := subindex
  exact congrArg₂ Prod.mk low (congrArg₂ Prod.mk high last)

theorem abort_address (payload : Payload) (code : AbortCode) :
    addressBytes (AbortSdo.toPayload
        ⟨(ExpeditedSdo.fromPayload payload).index, (ExpeditedSdo.fromPayload payload).subindex, code⟩) =
      addressBytes payload := by
  have low := fromPayload_low payload
  have high := fromPayload_high payload
  exact congrArg₂ Prod.mk low (congrArg₂ Prod.mk high rfl)

/-- A message is read back as it was written. -/
theorem fromPayload_toPayload (message : ExpeditedSdo) :
    ExpeditedSdo.fromPayload message.toPayload = message := by
  obtain ⟨size, expedited, empty, reserved, cs, index, subindex, data⟩ := message
  simp only [ExpeditedSdo.toPayload, ExpeditedSdo.fromPayload, ExpeditedSdo.mk.injEq]
  -- each bit-field is what is left when the lower ones are dropped
  have above {v w start len : ℕ} (high : BitVec v) (low : BitVec w) (le : w ≤ start) :
      (high ++ low).extractLsb' start len = high.extractLsb' (start - w) len :=
    BitVec.extractLsb'_append_eq_of_le le
  refine ⟨?_, ?_, ?_, ?_, ?_, ?_, ?_, ?_⟩
  · exact BitVec.extractLsb'_append_eq_right
  · exact (above _ _ (by decide)).trans BitVec.extractLsb'_append_eq_right
  · exact ((above _ _ (by decide)).trans (above _ _ (by decide))).trans BitVec.extractLsb'_append_eq_right
  · exact (((above _ _ (by decide)).trans (above _ _ (by decide))).trans (above _ _ (by decide))).trans
      BitVec.extractLsb'_append_eq_right
  · exact (((above _ _ (by decide)).trans (above _ _ (by decide))).trans (above _ _ (by decide))).trans
      BitVec.extractLsb'_append_eq_left
  · exact (BitVec.extractLsb'_append_extractLsb'_eq_extractLsb' rfl).trans BitVec.extractLsb'_eq_self
  · rfl
  · ext i below
    match i with
    | 0 => rfl
    | 1 => rfl
    | 2 => rfl
    | 3 => rfl

/-! ## Values and their bytes -/

/-- The declared type of an object whose variable has this type. -/
def Scalar.dataType : Scalar → OdValueType
  | .bool => .boolean
  | .int8 => .int8
  | .int16 => .int16
  | .int32 => .int32
  | .uint8 => .uint8
  | .uint16 => .uint16
  | .uint32 => .uint32
  | .float => .float32

theorem word16_bytes (value : BitVec 16) : word16 (bytes16 value) = value := by
  have whole := @BitVec.extractLsb'_append_extractLsb'_eq_extractLsb' _ 8 0 8 8 value rfl
  exact whole.trans BitVec.extractLsb'_eq_self

theorem word32_bytes (value : BitVec 32) : word32 (bytes32 value) = value := by
  have upper := @BitVec.extractLsb'_append_extractLsb'_eq_extractLsb' _ 24 16 8 8 value rfl
  have middle := @BitVec.extractLsb'_append_extractLsb'_eq_extractLsb' _ 16 8 8 16 value rfl
  have whole := @BitVec.extractLsb'_append_extractLsb'_eq_extractLsb' _ 8 0 8 24 value rfl
  have joined : word32 (bytes32 value) = value.extractLsb' 24 8 ++ value.extractLsb' 16 8 ++
    value.extractLsb' 8 8 ++ value.extractLsb' 0 8 := rfl
  rw [joined, upper, middle, whole, BitVec.extractLsb'_eq_self]

/-- A value survives the way into the data field and back. -/
theorem makeOdValue_toRaw (value : OdValue) : makeOdValue (toRaw value) value.type.dataType = value := by
  obtain ⟨type, value⟩ := value
  cases type with
  | bool => cases value <;> rfl
  | int8 => rfl
  | int16 => exact congrArg (OdValue.mk .int16) (word16_bytes value)
  | int32 => exact congrArg (OdValue.mk .int32) (word32_bytes value)
  | uint8 => rfl
  | uint16 => exact congrArg (OdValue.mk .uint16) (word16_bytes value)
  | uint32 => exact congrArg (OdValue.mk .uint32) (word32_bytes value)
  | float => exact congrArg (OdValue.mk .float) (word32_bytes value)

/-- The type of the value that the data field is taken for. -/
theorem makeOdValue_type (raw : Data) (type : Scalar) : (makeOdValue raw type.dataType).type = type := by
  cases type <;> rfl

theorem odValue_typed {value : OdValue} {type : Scalar} (typed : value.type = type) :
    ∃ content : type.Carrier, value = ⟨type, content⟩ := by
  subst typed
  exact ⟨value.value, rfl⟩

theorem bytes8_zero (value : BitVec 8) : (i : Fin 4) → 1 ≤ i.val → (bytes8 value)[i] = 0
  | ⟨0, _⟩, behind => absurd behind (Nat.not_succ_le_zero 0)
  | ⟨1, _⟩, _ => rfl
  | ⟨2, _⟩, _ => rfl
  | ⟨3, _⟩, _ => rfl

theorem bytes16_zero (value : BitVec 16) : (i : Fin 4) → 2 ≤ i.val → (bytes16 value)[i] = 0
  | ⟨0, _⟩, behind => absurd behind (Nat.not_succ_le_zero 1)
  | ⟨1, _⟩, behind => absurd behind (Nat.not_succ_le_self 1)
  | ⟨2, _⟩, _ => rfl
  | ⟨3, _⟩, _ => rfl

/-- Nothing but zeros follows the bytes of the value. -/
theorem toRaw_zero (value : OdValue) (i : Fin 4)
    (behind : odDataTypeSizes value.type.dataType ≤ i.val) : (toRaw value)[i] = 0 := by
  obtain ⟨type, value⟩ := value
  cases type with
  | bool => exact bytes8_zero _ i behind
  | int8 => exact bytes8_zero _ i behind
  | int16 => exact bytes16_zero _ i behind
  | int32 => exact absurd i.isLt (Nat.not_lt.mpr behind)
  | uint8 => exact bytes8_zero _ i behind
  | uint16 => exact bytes16_zero _ i behind
  | uint32 => exact absurd i.isLt (Nat.not_lt.mpr behind)
  | float => exact absurd i.isLt (Nat.not_lt.mpr behind)

end Emblib.Sdo
