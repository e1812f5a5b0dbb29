import Mathlib.Data.Nat.Notation

/-! CAN frames, and the identifiers that CANopen gives to its services. -/
namespace Emblib.Can

abbrev Byte := BitVec 8

abbrev Payload := Vector Byte 8

inductive Format where
  | standard
  | extended
  deriving DecidableEq

structure Frame where
  format : Format
  id : ℕ
  len : ℕ
  payload : Payload
  deriving DecidableEq

/-- `frame.payload[0]`. -/
def Frame.byte0 (frame : Frame) : Byte := frame.payload.get 0

/-- `frame.payload[1]`. -/
def Frame.byte1 (frame : Frame) : Byte := frame.payload.get 1

/-- `valid_node_id`. -/
structure NodeId where
  value : Byte
  valid : 1 ≤ value.toNat ∧ value.toNat ≤ 127

/-- Two nodes for examples. -/
def NodeId.five : NodeId := ⟨5, by decide⟩

def NodeId.six : NodeId := ⟨6, by decide⟩

inductive NmtState where
  | initializing
  | stopped
  | operational
  | preOperational
  deriving DecidableEq

/-- The underlying values of `nmt_state`. -/
def NmtState.toUnderlying : NmtState → Byte
  | .initializing => 0x00
  | .stopped => 0x04
  | .operational => 0x05
  | .preOperational => 0x7F

inductive NmtCommand where
  | start
  | stop
  | enterPreOperational
  | resetNode
  | resetCommunication
  deriving DecidableEq

inductive CobType where
  | nmt
  | sync
  | emcy
  | time
  | tpdo
  | rpdo
  | tsdo
  | rsdo
  | heartbeat

def cobFunctionCodes : CobType → ℕ
  | .nmt => 0x000
  | .sync => 0x080
  | .emcy => 0x080
  | .time => 0x100
  | .tpdo => 0x180
  | .rpdo => 0x200
  | .tsdo => 0x580
  | .rsdo => 0x600
  | .heartbeat => 0x700

/-- `cob_id_of` of a service that all nodes share. -/
def broadcastCobId (service : CobType) : ℕ := cobFunctionCodes service

/-- `cob_id_of` of a service of one node. -/
def peerCobId (service : CobType) (node : NodeId) : ℕ := cobFunctionCodes service + node.value.toNat

/-- A service tells the nodes apart. -/
theorem peerCobId_injective {service : CobType} {first second : NodeId}
    (same : peerCobId service first = peerCobId service second) : first = second := by
  obtain ⟨value, _⟩ := first
  obtain ⟨other, _⟩ := second
  obtain rfl : value = other := BitVec.eq_of_toNat_eq (Nat.add_left_cancel same)
  rfl

/-- `cob_id_of` of the process data object `i`, counted from one. -/
def pdoCobId (service : CobType) (i : ℕ) (node : NodeId) : ℕ :=
  cobFunctionCodes service + 0x100 * (i - 1) + node.value.toNat

end Emblib.Can
