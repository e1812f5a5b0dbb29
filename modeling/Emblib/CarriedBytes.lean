import Emblib.ExtendedFrames

/-! The bytes that a frame carries are the first `len` of its payload; the driver's buffer has
eight, and what stands behind the others is stale. The network management looks at the length
before it decodes, the SDO server does not: it takes a request from all eight bytes. -/
namespace Emblib.CarriedBytes
open Programs InplaceStorage Can Sdo ObjectDictionary SdoServer CanopenServices CanopenServer
  CanopenDispatch

variable {V D : Type} {options : Options} {dictionary : List (OdEntry V)}

/-! ## What a request comes down to -/

/-- A refusal, or the call of an accessor. -/
inductive Demand (V : Type) where
  | refuse (code : AbortCode)
  | read (entry : OdEntry V)
  | write (entry : OdEntry V) (value : OdValue)

def demandRead (entry : OdEntry V) : Demand V :=
  if entry.object.hasReadPermission then .read entry else .refuse .readFromWriteOnly

def demandWrite (entry : OdEntry V) (value : OdValue) : Demand V :=
  if entry.object.hasWritePermission then .write entry value else .refuse .writeToReadOnly

def demandRestore (dictionary : List (OdEntry V)) (key : OdKey) : Demand V :=
  match find dictionary key with
  | none => .refuse .objectNotFound
  | some entry =>
    match entry.object.defaultValue with
    | none =>
      if entry.object.hasWritePermission then .refuse .noDataAvailable else .refuse .writeToReadOnly
    | some value => demandWrite entry value

/-- What the request asks of the dictionary. -/
def demand (dictionary : List (OdEntry V)) (rsdo : ExpeditedSdo) : Demand V :=
  if rsdo.cs = clientInitWrite ∧ requestKey rsdo = restoreDefaultParameterKey then
    demandRestore dictionary (targetKey rsdo.data)
  else
    match find dictionary (requestKey rsdo) with
    | none => .refuse .objectNotFound
    | some entry =>
      if rsdo.cs = clientInitRead then demandRead entry
      else if rsdo.cs = clientInitWrite then demandWrite entry
        (makeOdValue rsdo.data entry.object.dataType)
      else .refuse .invalidCs

/-- The data and the count of empty bytes of a read, nothing of a write, or the reason of a failure. -/
abbrev Report := Except AbortCode (Option (Data × BitVec 2))

def fetch (entry : OdEntry V) : Except AbortCode OdValue × V → Report × V
  | (.ok value, after) => (.ok (some (toRaw value,
      BitVec.ofNat 2 (4 - odDataTypeSizes entry.object.dataType))), after)
  | (.error code, after) => (.error code, after)

def store : Except AbortCode Unit × V → Report × V
  | (.ok _, after) => (.ok none, after)
  | (.error code, after) => (.error code, after)

/-- What the accessor reports, and the variables afterwards. -/
def Demand.meet (values : V) : Demand V → Report × V
  | .refuse code => (.error code, values)
  | .read entry => fetch entry (entry.object.read.call values)
  | .write entry value => store ((entry.object.write value).call values)

/-- The response with this report. -/
def reply (rsdo : ExpeditedSdo) : Report → ExpeditedSdo
  | .ok (some (data, empty)) => {
      data := data
      index := rsdo.index
      subindex := rsdo.subindex
      cs := serverInitRead
      expeditedTransfer := 1
      dataSizeIndicated := 1
      dataEmptyBytes := empty }
  | .ok none => writeResponse rsdo
  | .error code => {
      data := bytes32 code.toUnderlying
      index := rsdo.index
      subindex := rsdo.subindex
      cs := csAbort }

/-! ## When two requests have the same effect -/

/-- A request that changes no variable, and whose response is dropped. -/
def Unnoticed (dictionary : List (OdEntry V)) (server : SdoServer.Server V)
    (rsdo : ExpeditedSdo) : Prop :=
  server.queue.size = tsdoQueue.capacity ∧ ((demand dictionary rsdo).meet server.values).2 = server.values

/-- Demands that come down to the same, apart from a report that is dropped. Refusals do by their codes, and
two calls of the same accessor with the same value do. An accessor may be anything, so calls of different ones
are compared by what they do to these variables. -/
def Demand.Same (values : V) (dropped : Prop) : Demand V → Demand V → Prop
  | .refuse code, .refuse code' => dropped ∨ code = code'
  | first, second => first = second ∨
    (first.meet values).2 = (second.meet values).2 ∧ (dropped ∨ (first.meet values).1 = (second.meet values).1)

/-- The demands come down to the same, for the same address unless the responses are dropped. -/
def Alike (dictionary : List (OdEntry V)) (server : SdoServer.Server V)
    (first second : ExpeditedSdo) : Prop :=
  let dropped := server.queue.size = tsdoQueue.capacity
  (demand dictionary first).Same server.values dropped (demand dictionary second) ∧
    (dropped ∨ requestKey first = requestKey second)

/-- Two requests that the server cannot tell apart by what they do. An abort is not answered. -/
def SameRequest (dictionary : List (OdEntry V)) (server : SdoServer.Server V)
    (first second : ExpeditedSdo) : Prop :=
  if first.cs = csAbort then second.cs = csAbort ∨ Unnoticed dictionary server second
  else if second.cs = csAbort then Unnoticed dictionary server first
  else Alike dictionary server first second

/-- The two frames carry the same. -/
structure Agree (first second : Frame) : Prop where
  id : first.id = second.id
  len : first.len = second.len
  carried : ∀ i : Fin 8, i.val < first.len → first.payload[i] = second.payload[i]

/-- The state of the network management, the variables of the dictionary and the queued responses. -/
def observed (server : CanopenServer.Server V D) : NmtState × V × Object Payload :=
  (server.nmtState, server.sdo.values, server.sdo.queue)

/-- Whatever the application replies in either case, the outcome is the same. -/
def SameOutcome (options : Options) (dictionary : List (OdEntry V)) (server : CanopenServer.Server V D)
    (first second : Frame) : Prop :=
  (dispatchRx options dictionary first server).Yields fun after _ =>
    (dispatchRx options dictionary second server).Yields fun after' _ => observed after = observed after'

/-! ## Responses tell their reports -/

section Requests
variable {rsdo first second : ExpeditedSdo} {values : V} {entry : OdEntry V}

theorem toPayload_injective {first second : ExpeditedSdo}
    (same : first.toPayload = second.toPayload) : first = second := by
  rw [← fromPayload_toPayload first, same, fromPayload_toPayload]

/-- The codes are pairwise different. -/
def codeOf (value : BitVec 32) : Option AbortCode :=
  [AbortCode.invalidCs, .unsupportedAccess, .readFromWriteOnly, .writeToReadOnly, .objectNotFound,
    .hardwareError,
    .dataTypeMismatch, .valueRangeExceeded, .valueTooHigh, .valueTooLow, .generalError, .dataStoreError,
    .localControlError, .stateError, .noDataAvailable].find? fun code => code.toUnderlying = value

theorem codeOf_toUnderlying (code : AbortCode) : codeOf code.toUnderlying = some code := by
  cases code <;> rfl

theorem bytes32_injective {first second : BitVec 32} (same : bytes32 first = bytes32 second) :
    first = second := by
  rw [← word32_bytes first, same, word32_bytes]

theorem abort_payload (index : BitVec 16) (subindex : BitVec 8) (code : AbortCode) :
    AbortSdo.toPayload ⟨index, subindex, code⟩ =
      ExpeditedSdo.toPayload { cs := csAbort, index, subindex, data := bytes32 code.toUnderlying } := by
  have specifier : (csAbort ++ (0 : BitVec 5) : Byte) =
      csAbort ++ (0 : BitVec 1) ++ (0 : BitVec 2) ++ (0 : BitVec 1) ++ (0 : BitVec 1) := by decide
  unfold AbortSdo.toPayload ExpeditedSdo.toPayload
  rw [specifier]
  rfl

theorem reply_index (rsdo : ExpeditedSdo) (report : Report) : (reply rsdo report).index = rsdo.index := by
  rcases report with code | _ | ⟨data, empty⟩ <;> rfl

theorem reply_subindex (rsdo : ExpeditedSdo) (report : Report) :
    (reply rsdo report).subindex = rsdo.subindex := by
  rcases report with code | _ | ⟨data, empty⟩ <;> rfl

/-- Responses are the same if and only if the address and the report are. -/
theorem reply_same {report report' : Report} :
    reply first report = reply second report' ↔
      requestKey first = requestKey second ∧ report = report' := by
  constructor
  · intro same
    have index := congrArg ExpeditedSdo.index same
    have subindex := congrArg ExpeditedSdo.subindex same
    rw [reply_index, reply_index] at index
    rw [reply_subindex, reply_subindex] at subindex
    refine ⟨congrArg₂ OdKey.mk index subindex, ?_⟩
    have cs := congrArg ExpeditedSdo.cs same
    have data := congrArg ExpeditedSdo.data same
    have empty := congrArg ExpeditedSdo.dataEmptyBytes same
    rcases report with code | _ | ⟨content, count⟩ <;> rcases report' with code' | _ | ⟨content', count'⟩
    case error.error =>
      have codes := congrArg codeOf (bytes32_injective data)
      rw [codeOf_toUnderlying, codeOf_toUnderlying] at codes
      rw [Option.some.inj codes]
    case ok.none.ok.none => rfl
    case ok.some.ok.some =>
      obtain rfl : content = content' := data
      obtain rfl : count = count' := empty
      rfl
    all_goals simp [reply, writeResponse, csAbort, serverInitRead, serverInitWrite] at cs
  · rintro ⟨key, rfl⟩
    obtain ⟨index, subindex⟩ := OdKey.mk.inj key
    rcases report with code | _ | ⟨content, count⟩
    · simp only [reply, index, subindex]
    · simp only [reply, writeResponse, index, subindex]
    · simp only [reply, index, subindex]

/-! ## The server does what the request demands -/

/-- The outcome as the server has it, for a report. -/
def outcomeOf (rsdo : ExpeditedSdo) : Report × V → Except AbortCode ExpeditedSdo × V
  | (.ok fetched, after) => (.ok (reply rsdo (.ok fetched)), after)
  | (.error code, after) => (.error code, after)

theorem fetched_eq (outcome : Except AbortCode OdValue × V) :
    fetched entry rsdo outcome = outcomeOf rsdo (fetch entry outcome) := by
  obtain ⟨result, after⟩ := outcome
  cases result <;> rfl

theorem stored_eq (outcome : Except AbortCode Unit × V) :
    stored rsdo outcome = outcomeOf rsdo (store outcome) := by
  obtain ⟨result, after⟩ := outcome
  cases result <;> rfl

theorem readExpedited_eq :
    (readExpedited entry rsdo).call values = outcomeOf rsdo ((demandRead entry).meet values) := by
  rw [call_readExpedited, demandRead]
  cases entry.object.hasReadPermission with
  | true => exact fetched_eq _
  | false => rfl

theorem writeExpedited_eq : (writeExpedited entry rsdo).call values =
    outcomeOf rsdo ((demandWrite entry (makeOdValue rsdo.data entry.object.dataType)).meet values) := by
  rw [call_writeExpedited, demandWrite]
  cases entry.object.hasWritePermission with
  | true => exact stored_eq _
  | false => rfl

theorem restoreDefault_eq (key : OdKey) :
    stored rsdo ((restoreDefaultParameter dictionary key).call values) =
      outcomeOf rsdo ((demandRestore dictionary key).meet values) := by
  unfold restoreDefaultParameter demandRestore
  cases find dictionary key with
  | none => rfl
  | some entry =>
    dsimp only
    rw [Accessor.call_guard]
    cases entry.object.defaultValue with
    | none => cases entry.object.hasWritePermission <;> rfl
    | some value =>
      dsimp only
      rw [demandWrite]
      cases entry.object.hasWritePermission with
      | true => exact stored_eq _
      | false => rfl

theorem result_eq :
    (result dictionary rsdo).call values = outcomeOf rsdo ((demand dictionary rsdo).meet values) := by
  unfold result demand
  by_cases restores : rsdo.cs = clientInitWrite ∧ requestKey rsdo = restoreDefaultParameterKey
  · rw [if_pos restores, if_pos restores, call_writeRestoreDefault]
    exact restoreDefault_eq _
  · rw [if_neg restores, if_neg restores]
    cases find dictionary (requestKey rsdo) with
    | none => rfl
    | some entry =>
      dsimp only
      by_cases reads : rsdo.cs = clientInitRead
      · rw [if_pos reads, if_pos reads]
        exact readExpedited_eq
      · rw [if_neg reads, if_neg reads]
        by_cases writes : rsdo.cs = clientInitWrite
        · rw [if_pos writes, if_pos writes]
          exact writeExpedited_eq
        · rw [if_neg writes, if_neg writes]
          rfl

theorem response_outcomeOf (outcome : Report × V) :
    response rsdo (outcomeOf rsdo outcome).1 = (reply rsdo outcome.1).toPayload := by
  obtain ⟨report, after⟩ := outcome
  cases report with
  | ok fetched => rfl
  | error code => exact abort_payload rsdo.index rsdo.subindex code

theorem outcomeOf_values (outcome : Report × V) : (outcomeOf rsdo outcome).2 = outcome.2 := by
  obtain ⟨report, after⟩ := outcome
  cases report <;> rfl

end Requests

/-! ## Two frames -/

/-- The queue with one more response, or as it is when it is full. -/
def queued (payload : Payload) (queue : Object Payload) : Object Payload :=
  (run access (do
    if !(← InplaceQueue.full tsdoQueue) then
      InplaceQueue.push tsdoQueue (.outside payload) : Method Payload Unit) queue).2

theorem tryHandle_answered {node : NodeId} {frame : Frame} {server : SdoServer.Server V}
    (answered : Answered node frame) :
    let rsdo := ExpeditedSdo.fromPayload frame.payload
    let outcome := (demand dictionary rsdo).meet server.values
    (tryHandle node dictionary frame server).2 =
      { values := outcome.2, queue := queued (reply rsdo outcome.1).toPayload server.queue } := by
  unfold tryHandle
  rw [if_neg (not_not.mpr answered.1)]
  simp only [if_neg answered.2, result_eq, outcomeOf_values, response_outcomeOf]
  rfl

theorem queued_room {queue : Object Payload} (room : queue.size ≠ tsdoQueue.capacity)
    (payload : Payload) :
    queued payload queue = { queue with
      slots := Function.update queue.slots ((queue.front + queue.size) % tsdoQueue.capacity)
        (.live payload)
      size := queue.size + 1 } := by
  have notFull : run access (InplaceQueue.full tsdoQueue) queue = (false, queue) :=
    congrArg (·, queue) (beq_false_of_ne room)
  rw [queued, run_bind, notFull]
  rfl

theorem queued_same (queue : Object Payload) (first second : Payload) :
    queued first queue = queued second queue ↔ queue.size = tsdoQueue.capacity ∨ first = second := by
  by_cases full : queue.size = tsdoQueue.capacity
  · have kept (payload : Payload) : queued payload queue = queue :=
      (ExtendedFrames.push_same queue payload).mpr full
    exact iff_of_true ((kept first).trans (kept second).symm) (.inl full)
  · rw [or_iff_right full]
    refine ⟨fun same => ?_, congrArg (queued · queue)⟩
    rw [queued_room full, queued_room full] at same
    have slot := congrFun (congrArg Object.slots same) ((queue.front + queue.size) % tsdoQueue.capacity)
    simpa using slot

/-- An answer that leaves the server as it is goes unnoticed. -/
theorem unnoticed_iff {node : NodeId} {frame : Frame} {server : SdoServer.Server V}
    (answered : Answered node frame) :
    (tryHandle node dictionary frame server).2 = server ↔
      Unnoticed dictionary server (ExpeditedSdo.fromPayload frame.payload) := by
  rw [tryHandle_answered answered]
  obtain ⟨values, queue⟩ := server
  simp only [SdoServer.Server.mk.injEq, Unnoticed]
  rw [queued, ExtendedFrames.push_same, and_comm]

/-- Demands come down to the same exactly when they leave the same and report the same. -/
theorem demand_same {values : V} {dropped : Prop} (first second : Demand V) :
    first.Same values dropped second ↔ (first.meet values).2 = (second.meet values).2 ∧
      (dropped ∨ (first.meet values).1 = (second.meet values).1) := by
  have met : (first = second ∨ (first.meet values).2 = (second.meet values).2 ∧
      (dropped ∨ (first.meet values).1 = (second.meet values).1)) ↔
      (first.meet values).2 = (second.meet values).2 ∧
        (dropped ∨ (first.meet values).1 = (second.meet values).1) := by
    constructor
    · rintro (rfl | same)
      · exact ⟨rfl, .inr rfl⟩
      · exact same
    · exact .inr
  cases first with
  | refuse code =>
    cases second with
    | refuse code' => simp [Demand.Same, Demand.meet]
    | read | write => exact met
  | read | write => exact met

/-- Two requests have the same effect exactly when they demand the same. -/
theorem tryHandle_same {node : NodeId} {first second : Frame} (server : SdoServer.Server V)
    (addressed : first.id = rsdoCobId node) (addressed' : second.id = rsdoCobId node) :
    (tryHandle node dictionary first server).2 = (tryHandle node dictionary second server).2 ↔
      SameRequest dictionary server (ExpeditedSdo.fromPayload first.payload)
      (ExpeditedSdo.fromPayload second.payload) := by
  unfold SameRequest
  by_cases abort : (ExpeditedSdo.fromPayload first.payload).cs = csAbort
  · rw [if_pos abort, tryHandle_ignored fun answered => answered.2 abort]
    by_cases abort' : (ExpeditedSdo.fromPayload second.payload).cs = csAbort
    · rw [tryHandle_ignored fun answered => answered.2 abort']
      exact iff_of_true rfl (.inl abort')
    · rw [or_iff_right abort', eq_comm, unnoticed_iff ⟨addressed', abort'⟩]
  · rw [if_neg abort]
    by_cases abort' : (ExpeditedSdo.fromPayload second.payload).cs = csAbort
    · rw [if_pos abort', tryHandle_ignored fun answered => answered.2 abort']
      exact unnoticed_iff ⟨addressed, abort⟩
    · rw [if_neg abort', tryHandle_answered ⟨addressed, abort⟩, tryHandle_answered ⟨addressed', abort'⟩]
      simp only [SdoServer.Server.mk.injEq, Alike, queued_same, demand_same, and_assoc, ← or_and_left]
      refine and_congr_right fun _ => or_congr_right ?_
      rw [and_comm]
      exact ⟨fun same => reply_same.mp (toPayload_injective same),
        fun same => congrArg _ (reply_same.mpr same)⟩

theorem sameRequest_refl (server : SdoServer.Server V) (rsdo : ExpeditedSdo) :
    SameRequest dictionary server rsdo rsdo := by
  unfold SameRequest
  by_cases abort : rsdo.cs = csAbort
  · rw [if_pos abort]
    exact .inl abort
  · rw [if_neg abort, if_neg abort]
    exact ⟨(demand_same _ _).mpr ⟨rfl, .inr rfl⟩, .inr rfl⟩

/-! ## Other services -/

variable {server : CanopenServer.Server V D} {first second : Frame}

theorem observed_entered (s : NmtState) (now : Int) :
    observed (entered s now server) = (s, server.sdo.values, server.sdo.queue) := rfl

/-- What the state of the network management is after a frame for it. -/
theorem observed_nmt {frame : Frame} (nmt : nmtMatch frame = true) :
    (dispatchRx options dictionary frame server).Yields fun after _ =>
      observed after = (((nmtDecode options.nodeId frame).map target).getD server.nmtState,
        server.sdo.values, server.sdo.queue) := by
  refine yields_mono (dispatchRx_yields frame server) fun after _ dispatches => ?_
  cases dispatches with
  | unknown _ decoded =>
    rw [decoded]
    rfl
  | stays _ decoded same =>
    rw [decoded, Option.map_some, Option.getD_some, same]
    rfl
  | enters _ decoded _ now =>
    rw [decoded, Option.map_some, Option.getD_some]
    exact observed_entered _ now
  | request other _ => exact absurd (nmt.symm.trans other) Bool.true_eq_false.mp
  | process other _ _ _ => exact absurd (nmt.symm.trans other) Bool.true_eq_false.mp

/-- The network management decodes only what a frame carries. -/
theorem nmtDecode_agree (node : NodeId) (agree : Agree first second) :
    nmtDecode node first = nmtDecode node second := by
  unfold nmtDecode
  rw [← agree.len]
  by_cases short : first.len < 2
  · rw [if_pos short, if_pos short]
  · have byte0 : first.byte0 = second.byte0 :=
      agree.carried 0 (Nat.lt_of_lt_of_le Nat.zero_lt_two (Nat.not_lt.mp short))
    have byte1 : first.byte1 = second.byte1 := agree.carried 1 (Nat.not_lt.mp short)
    rw [if_neg short, if_neg short, byte0, byte1]

theorem observed_process {after : CanopenServer.Server V D} {exchanges : Exchanges D}
    {frame : Frame} {now : Int}
    (processes : Processes frame now server after exchanges) : observed after = observed server := by
  cases processes with
  | ignored => rfl
  | received => rfl
  | heard => rfl
  | unknown => rfl

/-- The services behind SDO leave alone what is observed. -/
theorem observed_other {frame : Frame} (other : nmtMatch frame = false)
    (unaddressed : frame.id ≠ rsdoCobId options.nodeId) :
    (dispatchRx options dictionary frame server).Yields fun after _ =>
      observed after = observed server := by
  refine yields_mono (dispatchRx_yields frame server) fun after _ dispatches => ?_
  cases dispatches with
  | unknown nmt _ => exact absurd (nmt.symm.trans other) Bool.true_eq_false.mp
  | stays nmt _ _ => exact absurd (nmt.symm.trans other) Bool.true_eq_false.mp
  | enters nmt _ _ _ => exact absurd (nmt.symm.trans other) Bool.true_eq_false.mp
  | request _ addressed => exact absurd addressed unaddressed
  | process _ _ now processes => exact observed_process processes

/-- A request is served without a look at the application. -/
theorem dispatchRx_request {frame : Frame} (addressed : frame.id = rsdoCobId options.nodeId) :
    dispatchRx options dictionary frame server =
      Program.pure { server with sdo := (tryHandle options.nodeId dictionary frame server.sdo).2 } := by
  have other : nmtMatch frame = false := by
    unfold nmtMatch
    rw [addressed]
    exact decide_eq_false (Nat.ne_of_gt (Nat.lt_of_lt_of_le (by decide) (Nat.le_add_right _ _)))
  have claimed := (tryHandle_claims options dictionary frame server.sdo).mpr addressed
  unfold dispatchRx
  rw [if_neg (Bool.eq_false_iff.mp other)]
  generalize tryHandle options.nodeId dictionary frame server.sdo = outcome at *
  obtain ⟨handled, sdo⟩ := outcome
  obtain rfl : handled = true := claimed
  rfl

/-- The frames are not for SDO, or the requests demand the same. -/
def Indistinct (options : Options) (dictionary : List (OdEntry V))
    (server : CanopenServer.Server V D) (first second : Frame) : Prop :=
  first.id = rsdoCobId options.nodeId →
    SameRequest dictionary server.sdo (ExpeditedSdo.fromPayload first.payload)
      (ExpeditedSdo.fromPayload second.payload)

theorem sameOutcome_iff (agree : Agree first second) :
    SameOutcome options dictionary server first second ↔
      Indistinct options dictionary server first second := by
  unfold SameOutcome Indistinct
  by_cases addressed : first.id = rsdoCobId options.nodeId
  · rw [dispatchRx_request addressed, dispatchRx_request (agree.id ▸ addressed),
      ← tryHandle_same server.sdo addressed
      (agree.id ▸ addressed)]
    show observed (V := V) _ = observed _ ↔ _
    constructor
    · intro same _
      exact congrArg₂ SdoServer.Server.mk (congrArg (·.2.1) same) (congrArg (·.2.2) same)
    · intro same
      exact congrArg (fun sdo : SdoServer.Server V => (server.nmtState, sdo.values, sdo.queue))
        (same addressed)
  · refine iff_of_true ?_ fun sdo => absurd sdo addressed
    cases nmt : nmtMatch first with
    | true =>
      have nmt' : nmtMatch second = true := by
        rw [← nmt, nmtMatch, nmtMatch, agree.id]
      refine yields_mono (observed_nmt nmt) fun after _ outcome => ?_
      refine yields_mono (observed_nmt nmt') fun after' _ outcome' => ?_
      rw [outcome, outcome', nmtDecode_agree options.nodeId agree]
    | false =>
      have other : nmtMatch second = false := by
        rw [← nmt, nmtMatch, nmtMatch, agree.id]
      refine yields_mono (observed_other nmt addressed) fun after _ outcome => ?_
      refine yields_mono (observed_other other (agree.id ▸ addressed)) fun after' _ outcome' => ?_
      rw [outcome, outcome']

/-! ## A byte that is not carried -/

/-- A variable that can be read and written. -/
def staleEntry : OdEntry (BitVec 32) where
  key := ⟨0x2000, 0⟩
  object := {
    access := .rw
    dataType := .uint32
    defaultValue := none
    read := do return ⟨.uint32, ← get⟩
    write := fun value => set (word32 (toRaw value)) }

def staleServer : CanopenServer.Server (BitVec 32) Unit where
  rxQueue := []
  nmtState := .preOperational
  hbProducer := {}
  syncProducer := {}
  watches := []
  sdo := { values := 7, queue := .initial }
  tpdo := []
  rpdo := []
  onNmtChange := none
  onResetNode := none
  onResetCommunication := none

/-- A download of a value whose last byte is the last byte of the buffer. -/
def staleFrame (node : NodeId) (len : ℕ) (last : Byte) : Frame where
  format := .standard
  id := rsdoCobId node
  len := len
  payload := #v[0x23, 0x00, 0x20, 0x00, 0x01, 0x00, 0x00, last]

theorem staleFrame_agree (node : NodeId) {len : ℕ} (short : len < 8) (last last' : Byte) :
    Agree (staleFrame node len last) (staleFrame node len last') := by
  refine ⟨rfl, rfl, fun i carried => ?_⟩
  have before : i.val < 7 := Nat.lt_of_lt_of_le carried (Nat.le_of_lt_succ short)
  obtain ⟨i, inside⟩ := i
  match i with
  | 0 | 1 | 2 | 3 | 4 | 5 | 6 => rfl
  | i + 7 => exact absurd before (Nat.not_lt.mpr (Nat.le_add_left 7 i))

theorem staleFrame_cs (node : NodeId) (len : ℕ) (last : Byte) :
    (ExpeditedSdo.fromPayload (staleFrame node len last).payload).cs = clientInitWrite := by
  show (0x23 : Byte).extractLsb' 5 3 = clientInitWrite
  decide

theorem staleFrame_key (node : NodeId) (len : ℕ) (last : Byte) :
    requestKey (ExpeditedSdo.fromPayload (staleFrame node len last).payload) = staleEntry.key := by
  show OdKey.mk ((0x20 : Byte) ++ (0x00 : Byte)) 0x00 = ⟨0x2000, 0⟩
  decide

theorem staleFrame_demand (node : NodeId) (len : ℕ) (last : Byte) :
    demand [staleEntry] (ExpeditedSdo.fromPayload (staleFrame node len last).payload) =
      .write staleEntry ⟨.uint32, word32 #v[0x01, 0x00, 0x00, last]⟩ := by
  have found : find [staleEntry] staleEntry.key = some staleEntry := rfl
  unfold demand
  rw [staleFrame_cs, staleFrame_key, found, if_neg (by decide)]
  rfl

/-- The byte is stored all the same. -/
theorem staleFrame_stored (node : NodeId) (len : ℕ) (last : Byte) :
    (tryHandle node [staleEntry] (staleFrame node len last) staleServer.sdo).2.values =
      word32 #v[0x01, 0x00, 0x00, last] := by
  have answered : Answered node (staleFrame node len last) :=
    ⟨rfl, staleFrame_cs node len last ▸ by decide⟩
  rw [tryHandle_answered answered, staleFrame_demand]
  exact word32_bytes (word32 #v[0x01, 0x00, 0x00, last])

theorem staleFrame_differs (options : Options) (len : ℕ) :
    ¬SameOutcome options [staleEntry] staleServer (staleFrame options.nodeId len 0)
      (staleFrame options.nodeId len 1) := by
  intro same
  unfold SameOutcome at same
  rw [dispatchRx_request rfl, dispatchRx_request rfl] at same
  have values :
      (tryHandle options.nodeId [staleEntry] (staleFrame options.nodeId len 0)
        staleServer.sdo).2.values =
      (tryHandle options.nodeId [staleEntry] (staleFrame options.nodeId len 1)
        staleServer.sdo).2.values :=
    congrArg (·.2.1) same
  rw [staleFrame_stored, staleFrame_stored] at values
  exact absurd values (by decide)

/-- Two frames that carry the same have the same outcome exactly when they are not for SDO or
their requests demand the same; and all such frames with an identifier and a length have, exactly
when the identifier is not that of the requests or the frames carry all eight bytes. -/
theorem carried_bytes_iff (options : Options) :
    (∀ (V D : Type) (dictionary : List (OdEntry V)) (server : CanopenServer.Server V D)
      (first second : Frame),
      Agree first second →
        (SameOutcome options dictionary server first second ↔
          Indistinct options dictionary server first second)) ∧
    ∀ id len : ℕ,
      (∀ (V D : Type) (dictionary : List (OdEntry V)) (server : CanopenServer.Server V D)
        (first second : Frame),
        first.id = id → first.len = len → Agree first second →
        SameOutcome options dictionary server first second) ↔
        id ≠ rsdoCobId options.nodeId ∨ 8 ≤ len := by
  refine ⟨fun V D dictionary server first second => sameOutcome_iff, fun id len => ⟨fun same => ?_, ?_⟩⟩
  · by_contra neither
    obtain ⟨rfl, short⟩ : id = rsdoCobId options.nodeId ∧ ¬8 ≤ len := by simpa [not_or] using neither
    exact staleFrame_differs options len (same _ _ _ _ _ _ rfl rfl
      (staleFrame_agree _ (Nat.not_le.mp short) 0 1))
  · rintro carries V D dictionary server first second rfl rfl agree
    refine (sameOutcome_iff agree).mpr fun addressed => ?_
    have whole := carries.resolve_left (not_not.mpr addressed)
    have payload : first.payload = second.payload :=
      Vector.ext fun i below => agree.carried ⟨i, below⟩ (Nat.lt_of_lt_of_le below whole)
    exact payload ▸ sameRequest_refl server.sdo _

theorem carried_bytes_iff_testing :
    SameOutcome ExtendedFrames.testingOptions [] ExtendedFrames.testingServer
      (ExtendedFrames.startFrame .standard)
      { ExtendedFrames.startFrame .standard with payload := #v[0x01, 0x00, 1, 2, 3, 4, 5, 6] } := by
  have agree : Agree (ExtendedFrames.startFrame .standard)
      { ExtendedFrames.startFrame .standard with payload := #v[0x01, 0x00, 1, 2, 3, 4, 5, 6] } :=
    ⟨rfl, rfl, by decide⟩
  exact ((carried_bytes_iff _).1 _ _ _ _ _ _ agree).mpr fun addressed => absurd addressed (by decide)

/-- A request of four bytes stores the four bytes behind them. -/
theorem stale_bytes_stored :
    Agree (staleFrame ExtendedFrames.testingOptions.nodeId 4 0)
      (staleFrame ExtendedFrames.testingOptions.nodeId 4 1) ∧
    ¬SameOutcome ExtendedFrames.testingOptions [staleEntry] staleServer
      (staleFrame ExtendedFrames.testingOptions.nodeId 4 0)
      (staleFrame ExtendedFrames.testingOptions.nodeId 4 1) :=
  ⟨staleFrame_agree _ (by decide) 0 1, staleFrame_differs _ 4⟩

end Emblib.CarriedBytes
