import Emblib.Library.Watchdog
import Emblib.Can

/-! The services of a CANopen server other than SDO. The clock, the bus and the delegates that
the application configures are reached by requests; delegates do not call back. -/
namespace Emblib.CanopenServices
open Programs Watchdogs Can

/-! ## Requests -/

/-- The services that send frames. -/
inductive Sender where
  | tpdo
  | sdo
  | heartbeat
  | sync
  | emcy
  deriving DecidableEq

/-- What the services ask for. Filters are for standard frames with exactly the identifier. -/
inductive Effect (D : Type) where
  | clock
  | send (sender : Sender) (frame : Frame)
  | addFilter (id : ℕ)
  | nmtChange (handler : D) (state : NmtState)
  | reset (handler : D)
  | receive (handler : D) (payload : Payload)
  | timeout (handler : D)
  | provide (handler : D)
  | lost (handler : D) (remote : NodeId)

abbrev Reply {D : Type} : Effect D → Type
  | .clock => Int
  | .send .. => Bool
  | .addFilter _ => Unit
  | .nmtChange .. => Unit
  | .reset _ => Unit
  | .receive .. => Unit
  | .timeout _ => Unit
  | .provide _ => Payload
  | .lost .. => Unit

abbrev Task (D A : Type) := Program (Effect D) Reply A

variable {D : Type}

def clock : Task D Int := Program.perform (E := Effect D) .clock

def send (sender : Sender) (frame : Frame) : Task D Bool :=
  Program.perform (E := Effect D) (.send sender frame)

def nmtChange (state : NmtState) (handler : D) : Task D Unit :=
  Program.perform (E := Effect D) (.nmtChange handler state)

def reset (handler : D) : Task D Unit := Program.perform (E := Effect D) (.reset handler)

def receive (payload : Payload) (handler : D) : Task D Unit :=
  Program.perform (E := Effect D) (.receive handler payload)

def timeout (handler : D) : Task D Unit := Program.perform (E := Effect D) (.timeout handler)

def lost (remote : NodeId) (handler : D) : Task D Unit :=
  Program.perform (E := Effect D) (.lost handler remote)

/-! ## `nmt_slave` -/

def nmtCobId : ℕ := broadcastCobId .nmt

def nmtMatch (frame : Frame) : Bool := frame.id = nmtCobId

def nmtDecode (node : NodeId) (frame : Frame) : Option NmtCommand :=
  if frame.len < 2 then none
  else
    let cs := frame.byte0
    let target := frame.byte1
    if target ≠ 0 ∧ target ≠ node.value then none
    else if cs = 0x01 then some .start
    else if cs = 0x02 then some .stop
    else if cs = 0x80 then some .enterPreOperational
    else if cs = 0x81 then some .resetNode
    else if cs = 0x82 then some .resetCommunication
    else none

/-! ## `rpdo_consumer` and `tpdo_producer` -/

/-- `pdo_id`. -/
inductive PdoId where
  | predefined
  | custom (value : ℕ)

/-- What `setup_rpdo` and `setup_tpdo` assert about the object `i`, counted from one. -/
def PdoId.Valid (count i : ℕ) : PdoId → Prop
  | .predefined => 1 ≤ i ∧ i ≤ count ∧ i ≤ 4
  | .custom value => 1 ≤ i ∧ i ≤ count ∧ 1 ≤ value ∧ value ≤ 0x7FF

def PdoId.resolve (service : CobType) (i : ℕ) (node : NodeId) : PdoId → ℕ
  | .predefined => pdoCobId service i node
  | .custom value => value

structure RpdoConfig (D : Type) where
  handler : Option D
  timeout : Int
  onTimeout : Option D

structure RpdoSlot (D : Type) extends Timer where
  cobId : Option ℕ := none
  handler : Option D := none
  onTimeout : Option D := none

namespace RpdoConsumer

def setup (node : NodeId) (i : ℕ) (cobId : PdoId) (cfg : RpdoConfig D) (now : Int)
    (slots : List (RpdoSlot D)) :
    Task D (List (RpdoSlot D)) := do
  let id := cobId.resolve .rpdo i node
  if (slots[i - 1]?.bind (·.cobId)) ≠ some id then
    Program.perform (E := Effect D) (.addFilter id)
  return slots.modify (i - 1) fun s =>
    { s with
      handler := cfg.handler
      timeout := cfg.timeout
      onTimeout := cfg.onTimeout
      lastRx := now
      timedOut := false
      cobId := some id }

/-- The slot that a frame is for, the first one with its identifier. -/
def slotOf (frame : Frame) (slots : List (RpdoSlot D)) : Option ℕ :=
  slots.findIdx? fun s => s.cobId = some frame.id

def tryHandle (frame : Frame) (now : Int) (state : NmtState) (slots : List (RpdoSlot D)) :
    Task D (Bool × List (RpdoSlot D)) :=
  match slotOf frame slots with
  | none => return (false, slots)
  | some i => do
    if state ≠ .operational then return (true, slots)
    Program.callIf (slots[i]?.bind (·.handler)) (receive frame.payload)
    return (true, slots.modify i fun s => { s with lastRx := now, timedOut := false })

def tick (now : Int) (state : NmtState) (slots : List (RpdoSlot D)) : Task D (ℕ × List (RpdoSlot D)) :=
  if state ≠ .operational then return (0, slots)
  else tickAll RpdoSlot.toTimer (fun s => { s with timedOut := true }) (fun s => Program.callIf s.onTimeout CanopenServices.timeout) now slots

def resetTimers (now : Int) (slots : List (RpdoSlot D)) : List (RpdoSlot D) :=
  slots.map fun s => { s with lastRx := now, timedOut := false }

end RpdoConsumer

structure TpdoConfig (D : Type) where
  provider : Option D
  period : Int

structure TpdoSlot (D : Type) where
  cobId : ℕ := 0
  provider : Option D := none
  period : Int := 0
  lastTx : Int := 0

namespace TpdoProducer

def setup (node : NodeId) (i : ℕ) (cobId : PdoId) (cfg : TpdoConfig D) (now : Int)
    (slots : List (TpdoSlot D)) :
    List (TpdoSlot D) :=
  slots.modify (i - 1) fun s =>
    { s with
      provider := cfg.provider
      period := cfg.period
      lastTx := now
      cobId := cobId.resolve .tpdo i node }

def tickSlot (now : Int) (s : TpdoSlot D) : Task D (TpdoSlot D) :=
  match s.provider with
  | none => return s
  | some provider => do
    if s.period = 0 then return s
    if now - s.lastTx < s.period then return s
    let payload ← Program.perform (E := Effect D) (.provide provider)
    let sent ← send .tpdo { format := .standard, id := s.cobId, len := 8, payload := payload }
    return if sent then { s with lastTx := now } else s

def tickSlots (now : Int) : List (TpdoSlot D) → Task D (List (TpdoSlot D))
  | [] => return []
  | s :: rest => do
    let s ← tickSlot now s
    return s :: (← tickSlots now rest)

def tick (now : Int) (state : NmtState) (slots : List (TpdoSlot D)) : Task D (List (TpdoSlot D)) :=
  if state ≠ .operational then return slots
  else tickSlots now slots

end TpdoProducer

/-! ## Producers of heartbeats, SYNC and EMCY -/

/-- `hb_producer` and `sync_producer`. -/
structure Producer where
  period : Int := 0
  lastTx : Int := 0

namespace Producer

def setPeriod (period now : Int) : Producer where
  period := period
  lastTx := now

/-- Send the frame if its period is over. -/
def tickWith (sender : Sender) (frame : Frame) (now : Int) (producer : Producer) : Task D Producer := do
  if producer.period = 0 then return producer
  if now - producer.lastTx < producer.period then return producer
  let sent ← send sender frame
  return if sent then { producer with lastTx := now } else producer

/-- `hb_producer::tick`. -/
def tickHeartbeat (node : NodeId) (now : Int) (state : NmtState) (producer : Producer) :
    Task D Producer :=
  tickWith .heartbeat
    { format := .standard
      id := peerCobId .heartbeat node
      len := 1
      payload := #v[state.toUnderlying, 0, 0, 0, 0, 0, 0, 0] } now producer

/-- `sync_producer::tick`. -/
def tickSync (now : Int) (producer : Producer) : Task D Producer :=
  tickWith .sync
    { format := .standard, id := broadcastCobId .sync, len := 0, payload := #v[0, 0, 0, 0, 0, 0, 0, 0] } now producer

end Producer

/-- The frame of `emcy_producer::emit`. -/
def emcyFrame (node : NodeId) (errorCode : BitVec 16) (errorRegister : Byte)
    (manufacturer : Byte × Byte × Byte × Byte × Byte) : Frame where
  format := .standard
  id := peerCobId .emcy node
  len := 8
  payload :=
    let (m0, m1, m2, m3, m4) := manufacturer
    #v[errorCode.extractLsb' 0 8, errorCode.extractLsb' 8 8, errorRegister, m0, m1, m2, m3, m4]

def emit (node : NodeId) (errorCode : BitVec 16) (errorRegister : Byte)
    (manufacturer : Byte × Byte × Byte × Byte × Byte) : Task D Bool :=
  send .emcy (emcyFrame node errorCode errorRegister manufacturer)

/-! ## `hb_consumer` -/

structure WatchSlot (D : Type) extends Timer where
  cobId : ℕ
  remote : NodeId
  onLost : Option D

namespace HbConsumer

def capacity : ℕ := 8

def watch (remote : NodeId) (timeout : Int) (onLost : Option D) (now : Int)
    (watches : List (WatchSlot D)) :
    Task D (Bool × List (WatchSlot D)) :=
  let cobId := peerCobId .heartbeat remote
  match watches.findIdx? fun w => w.cobId = cobId with
  | some i =>
    return (true, watches.modify i fun w =>
      { w with timeout := timeout, onLost := onLost, lastRx := now, timedOut := false })
  | none => do
    if watches.length < capacity then
      Program.perform (E := Effect D) (.addFilter cobId)
      return (true, watches ++
        [{ cobId := cobId, remote := remote, timeout := timeout, lastRx := now, timedOut := false, onLost := onLost }])
    else return (false, watches)

/-- The watch that a frame is for, the first one with its identifier. -/
def slotOf (frame : Frame) (watches : List (WatchSlot D)) : Option ℕ :=
  watches.findIdx? fun w => w.cobId = frame.id

def tryHandle (frame : Frame) (now : Int) (watches : List (WatchSlot D)) : Bool × List (WatchSlot D) :=
  match slotOf frame watches with
  | none => (false, watches)
  | some i => (true, watches.modify i fun w => { w with lastRx := now, timedOut := false })

def tick (now : Int) (watches : List (WatchSlot D)) : Task D (List (WatchSlot D)) := do
  let (_, watches) ← tickAll WatchSlot.toTimer (fun w => { w with timedOut := true })
    (fun w => Program.callIf w.onLost (lost w.remote)) now watches
  return watches

end HbConsumer

end Emblib.CanopenServices
