import Emblib.CanopenServices
import Emblib.SdoServer

/-! The CANopen server: received frames wait in a queue until a run dispatches them to the
services and gives each service its time. The constants are the node's identifier and the
sorted object dictionary. -/
namespace Emblib.CanopenServer
open Programs Watchdogs Can CanopenServices

/-- `server_options`. -/
structure Options where
  nodeId : NodeId
  tpdoCount : ℕ := 4
  rpdoCount : ℕ := 4
  rxQueueCapacity : ℕ := 32

structure Server (V D : Type) where
  rxQueue : List Frame
  nmtState : NmtState
  hbProducer : Producer
  syncProducer : Producer
  watches : List (WatchSlot D)
  sdo : SdoServer.Server V
  tpdo : List (TpdoSlot D)
  rpdo : List (RpdoSlot D)
  onNmtChange : Option D
  onResetNode : Option D
  onResetCommunication : Option D

variable {V D : Type}

section Members
variable (options : Options) (dictionary : List (ObjectDictionary.OdEntry V))

/-- `enqueue_rx`: the newest frame is dropped if the queue is full. -/
def enqueueRx (frame : Frame) (server : Server V D) : Server V D :=
  if server.rxQueue.length < options.rxQueueCapacity then { server with rxQueue := server.rxQueue ++ [frame] }
  else server

def applyNmtState (s : NmtState) (server : Server V D) : Task D (Server V D) :=
  if s = server.nmtState then return server
  else do
    let now ← clock
    Program.callIf server.onNmtChange (nmtChange s)
    return { server with
      nmtState := s
      rpdo := if s = .operational then RpdoConsumer.resetTimers now server.rpdo else server.rpdo }

def handleNmtCommand (frame : Frame) (server : Server V D) : Task D (Server V D) :=
  match nmtDecode options.nodeId frame with
  | none => return server
  | some .start => applyNmtState .operational server
  | some .stop => applyNmtState .stopped server
  | some .enterPreOperational => applyNmtState .preOperational server
  | some .resetNode => do
    Program.callIf server.onResetNode reset
    applyNmtState .preOperational server
  | some .resetCommunication => do
    Program.callIf server.onResetCommunication reset
    applyNmtState .preOperational server

/-- The services behind SDO. -/
def dispatchProcess (frame : Frame) (server : Server V D) : Task D (Server V D) := do
  let now ← clock
  let (handled, rpdo) ← RpdoConsumer.tryHandle frame now server.nmtState server.rpdo
  let server := { server with rpdo := rpdo }
  if handled then return server
  return { server with watches := (HbConsumer.tryHandle frame now server.watches).2 }

def dispatchRx (frame : Frame) (server : Server V D) : Task D (Server V D) :=
  if nmtMatch frame then handleNmtCommand options frame server
  else
    let (handled, sdo) := SdoServer.tryHandle options.nodeId dictionary frame server.sdo
    let server := { server with sdo := sdo }
    if handled then return server
    else dispatchProcess frame server

/-- The loop over the queue in `run`. -/
def dispatchAll : List Frame → Server V D → Task D (Server V D)
  | [], server => return server
  | frame :: rest, server => do dispatchAll rest (← dispatchRx options dictionary frame server)

/-- An EMCY frame for each object that has timed out. -/
def emitTimeouts : ℕ → Task D Unit
  | 0 => return ()
  | count + 1 => do
    let _ ← emit options.nodeId 0x8250 0x10 (0, 0, 0, 0, 0)
    emitTimeouts count

/-- What `run` does once the queue is empty. -/
def tickServices (now : Int) (server : Server V D) : Task D (Server V D) := do
  let (timedOut, rpdo) ← RpdoConsumer.tick now server.nmtState server.rpdo
  emitTimeouts options timedOut
  let tpdo ← TpdoProducer.tick now server.nmtState server.tpdo
  let sdo ← SdoServer.drain options.nodeId (send .sdo) server.sdo
  let hbProducer ← Producer.tickHeartbeat options.nodeId now server.nmtState server.hbProducer
  let syncProducer ← Producer.tickSync now server.syncProducer
  let watches ← HbConsumer.tick now server.watches
  return { server with
    rpdo := rpdo
    tpdo := tpdo
    sdo := sdo
    hbProducer := hbProducer
    syncProducer := syncProducer
    watches := watches }

def runServer (server : Server V D) : Task D (Server V D) := do
  let now ← clock
  let server ← dispatchAll options dictionary server.rxQueue { server with rxQueue := [] }
  tickServices options now server

/-- The constructor: the server starts in the pre-operational state, before it has handlers. -/
def construct (values : V) : Task D (Server V D) := do
  Program.perform (E := Effect D) (.addFilter (SdoServer.rsdoCobId options.nodeId))
  Program.perform (E := Effect D) (.addFilter nmtCobId)
  applyNmtState .preOperational
    { rxQueue := []
      nmtState := .initializing
      hbProducer := {}
      syncProducer := {}
      watches := []
      sdo := { values := values, queue := .initial }
      tpdo := List.replicate options.tpdoCount {}
      rpdo := List.replicate options.rpdoCount {}
      onNmtChange := none
      onResetNode := none
      onResetCommunication := none }

/-! ## What happens to a server -/

/-- A received frame, or a call of a member function by the application. -/
inductive Command (options : Options) (D : Type) where
  | receive (frame : Frame)
  | run
  | start
  | stop
  | setupRpdo (i : ℕ) (cobId : PdoId) (valid : cobId.Valid options.rpdoCount i) (cfg : RpdoConfig D)
  | setupTpdo (i : ℕ) (cobId : PdoId) (valid : cobId.Valid options.tpdoCount i) (cfg : TpdoConfig D)
  | setHeartbeatPeriod (period : Int)
  | setSyncPeriod (period : Int)
  | onNmtChange (handler : Option D)
  | onResetNode (handler : Option D)
  | onResetCommunication (handler : Option D)
  | watchHeartbeat (remote : NodeId) (timeout : Int) (onLost : Option D)
  | emitEmcy (errorCode : BitVec 16) (errorRegister : Byte) (manufacturer : Byte × Byte × Byte × Byte × Byte)

def perform : Command options D → Server V D → Task D (Server V D)
  | .receive frame, server => return enqueueRx options frame server
  | .run, server => runServer options dictionary server
  | .start, server => applyNmtState .operational server
  | .stop, server => applyNmtState .stopped server
  | .setupRpdo i cobId _ cfg, server => do
    let now ← clock
    return { server with rpdo := (← RpdoConsumer.setup options.nodeId i cobId cfg now server.rpdo) }
  | .setupTpdo i cobId _ cfg, server => do
    let now ← clock
    return { server with tpdo := TpdoProducer.setup options.nodeId i cobId cfg now server.tpdo }
  | .setHeartbeatPeriod period, server => do
    let now ← clock
    return { server with hbProducer := Producer.setPeriod period now }
  | .setSyncPeriod period, server => do
    let now ← clock
    return { server with syncProducer := Producer.setPeriod period now }
  | .onNmtChange handler, server => return { server with onNmtChange := handler }
  | .onResetNode handler, server => return { server with onResetNode := handler }
  | .onResetCommunication handler, server => return { server with onResetCommunication := handler }
  | .watchHeartbeat remote timeout onLost, server => do
    let now ← clock
    let (_, watches) ← HbConsumer.watch remote timeout onLost now server.watches
    return { server with watches := watches }
  | .emitEmcy errorCode errorRegister manufacturer, server => do
    let _ ← emit options.nodeId errorCode errorRegister manufacturer
    return server

def performAll : List (Command options D) → Server V D → Task D (Server V D)
  | [], server => return server
  | command :: rest, server => do performAll rest (← perform options dictionary command server)

/-- A server from its construction on. -/
def history (values : V) (commands : List (Command options D)) : Task D (Server V D) := do
  performAll options dictionary commands (← construct options values)

end Members

end Emblib.CanopenServer
