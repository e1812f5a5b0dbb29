import Emblib.ObjectDictionary
import Emblib.InplaceQueue

/-! `sdo_server`: requests to the object dictionary, and the queue of the responses. -/
namespace Emblib.SdoServer
open Programs InplaceStorage Can Sdo ObjectDictionary

/-! ## Requests -/

section Requests
variable {V : Type}

def restoreDefaultParameterKey : OdKey := ⟨0x1011, 0x04⟩

def readExpedited (entry : OdEntry V) (rsdo : ExpeditedSdo) : Accessor V ExpeditedSdo := do
  if !entry.object.hasReadPermission then throw .readFromWriteOnly
  let value ← entry.object.read
  let dataSize := odDataTypeSizes entry.object.dataType
  return {
    data := toRaw value
    index := rsdo.index
    subindex := rsdo.subindex
    cs := serverInitRead
    expeditedTransfer := 1
    dataSizeIndicated := 1
    dataEmptyBytes := BitVec.ofNat 2 (4 - dataSize) }

def writeExpedited (entry : OdEntry V) (rsdo : ExpeditedSdo) : Accessor V ExpeditedSdo := do
  if !entry.object.hasWritePermission then throw .writeToReadOnly
  entry.object.write (makeOdValue rsdo.data entry.object.dataType)
  return { index := rsdo.index, subindex := rsdo.subindex, cs := serverInitWrite }

def restoreDefaultParameter (dictionary : List (OdEntry V)) (key : OdKey) : Accessor V Unit :=
  match find dictionary key with
  | none => throw .objectNotFound
  | some entry => do
    if !entry.object.hasWritePermission then throw .writeToReadOnly
    match entry.object.defaultValue with
    | none => throw .noDataAvailable
    | some value => entry.object.write value

/-- `memcpy` of the data field into an `od_key`; its last byte is padding. -/
def targetKey (data : Data) : OdKey := ⟨word16 data, byte2 data⟩

def writeRestoreDefault (dictionary : List (OdEntry V)) (rsdo : ExpeditedSdo) :
    Accessor V ExpeditedSdo := do
  restoreDefaultParameter dictionary (targetKey rsdo.data)
  return { index := rsdo.index, subindex := rsdo.subindex, cs := serverInitWrite }

def requestKey (rsdo : ExpeditedSdo) : OdKey := ⟨rsdo.index, rsdo.subindex⟩

/-- The lambda in `try_handle`. -/
def result (dictionary : List (OdEntry V)) (rsdo : ExpeditedSdo) : Accessor V ExpeditedSdo :=
  if rsdo.cs = clientInitWrite ∧ requestKey rsdo = restoreDefaultParameterKey then
    writeRestoreDefault dictionary rsdo
  else
    match find dictionary (requestKey rsdo) with
    | none => throw .objectNotFound
    | some entry =>
      if rsdo.cs = clientInitRead then readExpedited entry rsdo
      else if rsdo.cs = clientInitWrite then writeExpedited entry rsdo
      else throw .invalidCs

def response (rsdo : ExpeditedSdo) : Except AbortCode ExpeditedSdo → Payload
  | .ok tsdo => tsdo.toPayload
  | .error code => AbortSdo.toPayload ⟨rsdo.index, rsdo.subindex, code⟩

end Requests

/-! ## What a request does -/

section Requests
variable {V : Type} {entry : OdEntry V} {dictionary : List (OdEntry V)} {rsdo tsdo : ExpeditedSdo} {values : V}

/-- The response to a successful read. -/
def readResponse (entry : OdEntry V) (rsdo : ExpeditedSdo) (value : OdValue) : ExpeditedSdo where
  data := toRaw value
  index := rsdo.index
  subindex := rsdo.subindex
  cs := serverInitRead
  expeditedTransfer := 1
  dataSizeIndicated := 1
  dataEmptyBytes := BitVec.ofNat 2 (4 - odDataTypeSizes entry.object.dataType)

/-- The response to a successful write. -/
def writeResponse (rsdo : ExpeditedSdo) : ExpeditedSdo where
  index := rsdo.index
  subindex := rsdo.subindex
  cs := serverInitWrite

/-- What comes of a read by the accessor. -/
def fetched (entry : OdEntry V) (rsdo : ExpeditedSdo) :
    Except AbortCode OdValue × V → Except AbortCode ExpeditedSdo × V
  | (.ok value, after) => (.ok (readResponse entry rsdo value), after)
  | (.error code, after) => (.error code, after)

/-- What comes of a write by the accessor. -/
def stored (rsdo : ExpeditedSdo) : Except AbortCode Unit × V → Except AbortCode ExpeditedSdo × V
  | (.ok _, after) => (.ok (writeResponse rsdo), after)
  | (.error code, after) => (.error code, after)

theorem call_readExpedited : (readExpedited entry rsdo).call values =
    if entry.object.hasReadPermission then fetched entry rsdo (entry.object.read.call values)
    else (.error .readFromWriteOnly, values) := by
  refine (Accessor.call_guard _ _ _ _).trans (if_congr Iff.rfl ?_ rfl)
  rw [Accessor.call_bind]
  cases entry.object.read.call values with
  | mk outcome after => cases outcome <;> rfl

theorem call_writeExpedited : (writeExpedited entry rsdo).call values =
    if entry.object.hasWritePermission then
      stored rsdo ((entry.object.write (makeOdValue rsdo.data entry.object.dataType)).call values)
    else (.error .writeToReadOnly, values) := by
  refine (Accessor.call_guard _ _ _ _).trans (if_congr Iff.rfl ?_ rfl)
  rw [Accessor.call_bind]
  cases (entry.object.write (makeOdValue rsdo.data entry.object.dataType)).call values with
  | mk outcome after => cases outcome <;> rfl

theorem call_writeRestoreDefault : (writeRestoreDefault dictionary rsdo).call values =
    stored rsdo ((restoreDefaultParameter dictionary (targetKey rsdo.data)).call values) := by
  rw [writeRestoreDefault, Accessor.call_bind]
  cases (restoreDefaultParameter dictionary (targetKey rsdo.data)).call values with
  | mk outcome after => cases outcome <;> rfl

theorem fetched_address {outcome : Except AbortCode OdValue × V}
    (success : (fetched entry rsdo outcome).1 = .ok tsdo) :
    tsdo.index = rsdo.index ∧ tsdo.subindex = rsdo.subindex := by
  obtain ⟨result, after⟩ := outcome
  cases result with
  | error code => exact nomatch success
  | ok value =>
    obtain rfl := Except.ok.inj success
    exact ⟨rfl, rfl⟩

theorem stored_address {outcome : Except AbortCode Unit × V}
    (success : (stored rsdo outcome).1 = .ok tsdo) :
    tsdo.index = rsdo.index ∧ tsdo.subindex = rsdo.subindex := by
  obtain ⟨result, after⟩ := outcome
  cases result with
  | error code => exact nomatch success
  | ok value =>
    obtain rfl := Except.ok.inj success
    exact ⟨rfl, rfl⟩

/-- A successful response has the address of the request. -/
theorem result_address (success : ((result dictionary rsdo).call values).1 = .ok tsdo) :
    tsdo.index = rsdo.index ∧ tsdo.subindex = rsdo.subindex := by
  unfold result at success
  split at success
  · rw [call_writeRestoreDefault] at success
    exact stored_address success
  · split at success
    · exact nomatch success
    · split at success
      · rw [call_readExpedited] at success
        split at success
        · exact fetched_address success
        · exact nomatch success
      · split at success
        · rw [call_writeExpedited] at success
          split at success
          · exact stored_address success
          · exact nomatch success
        · exact nomatch success

end Requests

/-! ## The server -/

/-- `tsdo_queue_`. -/
def tsdoQueue : Config where
  capacity := 16
  positive := by decide
  triviallyCopyable := true
  triviallyDestructible := true
  destructible := fun _ => rfl
  keepsItself := true
  kept := fun _ => rfl

/-- The queue, and the variables that the accessors of the dictionary refer to. -/
structure Server (V : Type) where
  values : V
  queue : Object Payload

def rsdoCobId (node : NodeId) : ℕ := peerCobId .rsdo node

def tsdoCobId (node : NodeId) : ℕ := peerCobId .tsdo node

section Server
variable {V : Type} {E : Type} {R : E → Type}

def tryHandle (node : NodeId) (dictionary : List (OdEntry V)) (frame : Frame) (server : Server V) :
    Bool × Server V :=
  if frame.id ≠ rsdoCobId node then (false, server)
  else
    let rsdo := ExpeditedSdo.fromPayload frame.payload
    if rsdo.cs = csAbort then (true, server)
    else
      let (outcome, values) := (result dictionary rsdo).call server.values
      let push : Method Payload Unit := do
        if !(← InplaceQueue.full tsdoQueue) then
          InplaceQueue.push tsdoQueue (.outside (response rsdo outcome))
      (true, { values, queue := (run access push server.queue).2 })

def tsdoFrame (node : NodeId) (payload : Payload) : Frame where
  format := .standard
  id := tsdoCobId node
  len := 8
  payload := payload

/-- The payload in a slot; a payload has no other state than its value. -/
def slotPayload : Slot Payload → Payload
  | .live payload => payload
  | _ => Vector.replicate 8 0

/-- The loop of `drain`. A round takes one response from the queue or is the last. -/
def drainLoop (node : NodeId) (send : Frame → Program E R Bool) : Nat → Server V →
    Program E R (Server V)
  | 0, server => return server
  | fuel + 1, server => do
    if (run access InplaceQueue.empty server.queue).1 then return server
    let front := slotPayload (run access InplaceQueue.front server.queue).1
    if !(← send (tsdoFrame node front)) then return server
    drainLoop node send fuel
      { server with queue := (run access (InplaceQueue.pop tsdoQueue) server.queue).2 }

def drain (node : NodeId) (send : Frame → Program E R Bool) (server : Server V) :
    Program E R (Server V) :=
  drainLoop node send server.queue.size server

end Server

/-! ## What the member functions do to the queue -/

section Spec
variable {V : Type} {node : NodeId} {dictionary : List (OdEntry V)} {frame : Frame} {server : Server V}
  {pending : List Payload}

/-- A request to this server that it answers. -/
def Answered (node : NodeId) (frame : Frame) : Prop :=
  frame.id = rsdoCobId node ∧ (ExpeditedSdo.fromPayload frame.payload).cs ≠ csAbort

instance : Decidable (Answered node frame) := inferInstanceAs (Decidable (_ ∧ _))

/-- The response to the request. -/
def answer (dictionary : List (OdEntry V)) (request : Payload) (values : V) : Payload :=
  let rsdo := ExpeditedSdo.fromPayload request
  response rsdo ((result dictionary rsdo).call values).1

/-- Every response carries the address of its request. -/
theorem answer_address (request : Payload) (values : V) :
    addressBytes (answer dictionary request values) = addressBytes request := by
  unfold answer
  cases outcome : ((result dictionary (ExpeditedSdo.fromPayload request)).call values).1 with
  | error code =>
    simp only [outcome]
    exact abort_address request code
  | ok tsdo =>
    obtain ⟨index, subindex⟩ := result_address outcome
    simp only [outcome]
    exact expedited_address request tsdo index subindex

theorem tryHandle_ignored (ignored : ¬Answered node frame) :
    (tryHandle node dictionary frame server).2 = server := by
  unfold tryHandle
  by_cases addressed : frame.id = rsdoCobId node
  · have abort : (ExpeditedSdo.fromPayload frame.payload).cs = csAbort :=
      not_not.mp fun request => ignored ⟨addressed, request⟩
    rw [if_neg (not_not.mpr addressed)]
    simp only [if_pos abort]
  · rw [if_pos addressed]

theorem tryHandle_values (answered : Answered node frame) :
    (tryHandle node dictionary frame server).2.values =
      ((result dictionary (ExpeditedSdo.fromPayload frame.payload)).call server.values).2 := by
  simp only [tryHandle, answered.1, answered.2, ne_eq, not_true, if_false]

/-- The response is queued if there is room, and dropped otherwise. -/
theorem tryHandle_represents (answered : Answered node frame)
    (represents : CircularBufferRefinement.Represents tsdoQueue server.queue pending) :
    CircularBufferRefinement.Represents tsdoQueue (tryHandle node dictionary frame server).2.queue
      (if pending.length < 16 then pending ++ [answer dictionary frame.payload server.values] else pending) := by
  have bound := represents.size
  rw [CircularBufferRefinement.represents_length represents] at bound
  simp only [tryHandle, answered.1, answered.2, ne_eq, not_true, if_false, run_bind,
    InplaceQueue.run_full_of_represents represents]
  by_cases room : pending.length < 16
  · have notFull : (pending.length == tsdoQueue.capacity) = false := beq_false_of_ne (Nat.ne_of_lt room)
    simp only [notFull, Bool.not_false, if_true, if_pos room]
    exact InplaceQueue.push_represents _ represents room
  · have full : (pending.length == tsdoQueue.capacity) = true :=
      beq_iff_eq.mpr (Nat.le_antisymm bound (Nat.not_lt.mp room))
    simp only [full, Bool.not_true, if_neg room]
    exact represents

end Spec
end Emblib.SdoServer
