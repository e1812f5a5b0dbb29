import Emblib.Library.Watchdog
import Emblib.Can

/-! `raw::node`: slots for received frames, chosen by their format and masked identifier, and
slots for frames that are sent periodically. The node knows no time but that of its last run. -/
namespace Emblib.RawNode
open Programs Watchdogs Can

structure NodeOptions where
  rxSlots : ℕ := 8
  txSlots : ℕ := 8
  rxQueueCapacity : ℕ := 32

/-- What a node asks for. A failed `ensure` terminates the program and is never answered. -/
inductive Effect (D : Type) where
  | addFilter (format : Format) (id mask : ℕ)
  | terminate
  | receive (handler : D) (frame : Frame)
  | timeout (handler : D)
  | provide (handler : D)
  | send (frame : Frame)

abbrev Reply {D : Type} : Effect D → Type
  | .addFilter .. => Unit
  | .terminate => Empty
  | .receive .. => Unit
  | .timeout _ => Unit
  | .provide _ => Payload
  | .send _ => Bool

abbrev Task (D A : Type) := Program (Effect D) Reply A

structure RxSlot (D : Type) extends Timer where
  format : Format
  id : ℕ
  mask : ℕ
  handler : Option D
  onTimeout : Option D

structure TxSlot (D : Type) where
  format : Format
  id : ℕ
  len : ℕ
  period : Int
  lastTx : Int
  provider : Option D

structure Node (D : Type) where
  now : Int := 0
  rx : List (RxSlot D) := []
  tx : List (TxSlot D) := []
  rxQueue : List Frame := []

variable {D : Type}

def receive (frame : Frame) (handler : D) : Task D Unit :=
  Program.perform (E := Effect D) (.receive handler frame)

def timeout (handler : D) : Task D Unit := Program.perform (E := Effect D) (.timeout handler)

def ensure (pred : Bool) : Task D Unit :=
  if pred then .pure () else .request .terminate fun never => never.elim

def addRx (options : NodeOptions) (format : Format) (id mask : ℕ) (timeout : Int)
    (handler onTimeout : Option D) (node : Node D) : Task D (Node D) := do
  ensure (node.rx.length < options.rxSlots)
  Program.perform (E := Effect D) (.addFilter format id mask)
  return { node with
    rx := node.rx ++
      [{ format := format
         id := id
         mask := mask
         timeout := timeout
         lastRx := node.now
         timedOut := false
         handler := handler
         onTimeout := onTimeout }] }

def addPeriodicTx (options : NodeOptions) (format : Format) (id len : ℕ) (period : Int)
    (provider : Option D) (node : Node D) : Task D (Node D) := do
  ensure (node.tx.length < options.txSlots)
  return { node with
    tx := node.tx ++
      [{ format := format
         id := id
         len := len
         period := period
         lastTx := node.now
         provider := provider }] }

/-- `enqueue_rx`: the newest frame is dropped if the queue is full. -/
def enqueueRx (options : NodeOptions) (frame : Frame) (node : Node D) : Node D :=
  if node.rxQueue.length < options.rxQueueCapacity then { node with rxQueue := node.rxQueue ++ [frame] }
  else node

/-- The slot that a frame is for, the first one that it passes. -/
def slotOf (frame : Frame) (rx : List (RxSlot D)) : Option ℕ :=
  rx.findIdx? fun s => frame.format = s.format ∧ frame.id &&& s.mask = s.id &&& s.mask

def dispatchRx (now : Int) (frame : Frame) (rx : List (RxSlot D)) : Task D (List (RxSlot D)) :=
  match slotOf frame rx with
  | none => return rx
  | some i => do
    Program.callIf (rx[i]?.bind (·.handler)) (receive frame)
    return rx.modify i fun s => { s with lastRx := now, timedOut := false }

/-- The loop over the queue in `run`. -/
def dispatchAll (now : Int) : List Frame → List (RxSlot D) → Task D (List (RxSlot D))
  | [], rx => return rx
  | frame :: rest, rx => do dispatchAll now rest (← dispatchRx now frame rx)

/-- The loop over the received slots in `run`. -/
def tickRx (now : Int) (rx : List (RxSlot D)) : Task D (List (RxSlot D)) := do
  let (_, rx) ← tickAll RxSlot.toTimer (fun s => { s with timedOut := true })
    (fun s => Program.callIf s.onTimeout RawNode.timeout) now rx
  return rx

def tickSlot (now : Int) (s : TxSlot D) : Task D (TxSlot D) :=
  match s.provider with
  | none => return s
  | some provider => do
    if s.period = 0 then return s
    if now - s.lastTx < s.period then return s
    let payload ← Program.perform (E := Effect D) (.provide provider)
    let frame := { format := s.format, id := s.id, len := s.len, payload := payload }
    let sent ← Program.perform (E := Effect D) (.send frame)
    return if sent then { s with lastTx := now } else s

/-- The loop over the sent slots in `run`. -/
def tickTx (now : Int) : List (TxSlot D) → Task D (List (TxSlot D))
  | [] => return []
  | s :: rest => do
    let s ← tickSlot now s
    return s :: (← tickTx now rest)

def runNode (sinceBoot : Int) (node : Node D) : Task D (Node D) := do
  let rx ← dispatchAll sinceBoot node.rxQueue node.rx
  let rx ← tickRx sinceBoot rx
  let tx ← tickTx sinceBoot node.tx
  return { now := sinceBoot, rx := rx, tx := tx, rxQueue := [] }

end Emblib.RawNode
