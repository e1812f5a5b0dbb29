import Emblib.NmtDispatch

/-! Frames in extended format. The services register filters for standard frames, but they tell
what a frame is for by its identifier alone; an extended frame whose identifier is numerically
that of a service is served like a standard one. -/
namespace Emblib.ExtendedFrames
open Programs InplaceStorage Can Sdo ObjectDictionary SdoServer CanopenServices CanopenServer CanopenDispatch NmtDispatch

variable {V D : Type} {options : Options} {dictionary : List (OdEntry V)}

/-- A frame that does not act on the server: the state of the network management, the variables
of the dictionary, the queue of responses, the received objects and the watches are as they
were, and the server has only looked at the clock. -/
structure Unaffected (before after : CanopenServer.Server V D) (called : Exchanges D) : Prop where
  nmtState : after.nmtState = before.nmtState
  values : after.sdo.values = before.sdo.values
  queue : after.sdo.queue = before.sdo.queue
  rpdo : after.rpdo = before.rpdo
  watches : after.watches = before.watches
  called : ∀ exchange ∈ called, exchange.1 = .clock

/-- The accessor that a request calls, if it calls one, leaves the variables alone. -/
def Untouched (dictionary : List (OdEntry V)) (rsdo : ExpeditedSdo) (values : V) : Prop :=
  if rsdo.cs = clientInitWrite ∧ requestKey rsdo = restoreDefaultParameterKey then
    ∀ entry, find dictionary (targetKey rsdo.data) = some entry → entry.object.hasWritePermission = true →
      ∀ value, entry.object.defaultValue = some value → ((entry.object.write value).call values).2 = values
  else
    ∀ entry, find dictionary (requestKey rsdo) = some entry →
      (rsdo.cs = clientInitRead → entry.object.hasReadPermission = true →
        (entry.object.read.call values).2 = values) ∧
      (rsdo.cs = clientInitWrite → entry.object.hasWritePermission = true →
        ((entry.object.write (makeOdValue rsdo.data entry.object.dataType)).call values).2 = values)

/-- When a frame does not act on the server at this time, whatever its format. -/
def Harmless (options : Options) (dictionary : List (OdEntry V)) (frame : Frame)
    (server : CanopenServer.Server V D) (now : Int) : Prop :=
  match consumer options.nodeId frame server with
  | some .nmt => ∀ command, nmtDecode options.nodeId frame = some command →
    target command = server.nmtState ∧ resetHandler server command = none
  | some .sdo =>
    let rsdo := ExpeditedSdo.fromPayload frame.payload
    rsdo.cs = csAbort ∨ server.sdo.queue.size = tsdoQueue.capacity ∧ Untouched dictionary rsdo server.sdo.values
  | some (.rpdo i) => server.nmtState = .operational →
    ∀ s, server.rpdo[i]? = some s → s.lastRx = now ∧ s.timedOut = false ∧ s.handler = none
  | some (.heartbeat i) => ∀ w, server.watches[i]? = some w → w.lastRx = now ∧ w.timedOut = false
  | none => True

/-! ## Requests to the dictionary -/

section Requests
variable {rsdo : ExpeditedSdo} {values : V} {entry : OdEntry V}

theorem stored_values (outcome : Except AbortCode Unit × V) : (stored rsdo outcome).2 = outcome.2 := by
  obtain ⟨result, after⟩ := outcome
  cases result with
  | error code => rfl
  | ok value => rfl

theorem fetched_values (outcome : Except AbortCode OdValue × V) :
    (fetched entry rsdo outcome).2 = outcome.2 := by
  obtain ⟨result, after⟩ := outcome
  cases result with
  | error code => rfl
  | ok value => rfl

theorem guarded_values {A : Type} (allowed : Bool) (code : AbortCode) (outcome : Except AbortCode A × V) :
    (if allowed then outcome else (.error code, values)).2 = values ↔ (allowed = true → outcome.2 = values) := by
  cases allowed with
  | false => exact iff_of_true rfl fun allowed => absurd allowed Bool.false_ne_true
  | true => exact ⟨fun same _ => same, fun same => same rfl⟩

theorem restore_values (key : OdKey) : ((restoreDefaultParameter dictionary key).call values).2 = values ↔
    ∀ entry, find dictionary key = some entry → entry.object.hasWritePermission = true →
      ∀ value, entry.object.defaultValue = some value → ((entry.object.write value).call values).2 = values := by
  unfold restoreDefaultParameter
  cases found : find dictionary key with
  | none => exact iff_of_true rfl nofun
  | some entry =>
    simp only [Option.some.injEq, forall_eq']
    rw [Accessor.call_guard, guarded_values]
    refine imp_congr_right fun _ => ?_
    cases default : entry.object.defaultValue with
    | none => exact iff_of_true rfl nofun
    | some value => simp only [Option.some.injEq, forall_eq']

theorem result_values (dictionary : List (OdEntry V)) (rsdo : ExpeditedSdo) (values : V) :
    ((result dictionary rsdo).call values).2 = values ↔ Untouched dictionary rsdo values := by
  unfold result Untouched
  by_cases restores : rsdo.cs = clientInitWrite ∧ requestKey rsdo = restoreDefaultParameterKey
  · rw [if_pos restores, if_pos restores, call_writeRestoreDefault, stored_values]
    exact restore_values _
  · rw [if_neg restores, if_neg restores]
    cases found : find dictionary (requestKey rsdo) with
    | none => exact iff_of_true rfl nofun
    | some entry =>
      simp only [Option.some.injEq, forall_eq']
      by_cases reads : rsdo.cs = clientInitRead
      · have other : rsdo.cs ≠ clientInitWrite := reads ▸ by decide
        rw [if_pos reads, call_readExpedited, guarded_values, fetched_values]
        exact ⟨fun same => ⟨fun _ => same, fun writes => absurd writes other⟩, fun untouched => untouched.1 reads⟩
      · rw [if_neg reads]
        by_cases writes : rsdo.cs = clientInitWrite
        · rw [if_pos writes, call_writeExpedited, guarded_values, stored_values]
          exact ⟨fun same => ⟨fun read => absurd read reads, fun _ => same⟩, fun untouched => untouched.2 writes⟩
        · rw [if_neg writes]
          exact iff_of_true rfl ⟨fun read => absurd read reads, fun write => absurd write writes⟩

end Requests

/-- A response is dropped if and only if the queue is full. -/
theorem push_same (queue : Object Payload) (payload : Payload) :
    (run access (do
      if !(← InplaceQueue.full tsdoQueue) then
        InplaceQueue.push tsdoQueue (.outside payload) : Method Payload Unit) queue).2 = queue ↔
      queue.size = tsdoQueue.capacity := by
  have full : run access (InplaceQueue.full tsdoQueue) queue = (queue.size == tsdoQueue.capacity, queue) := rfl
  rw [run_bind, full]
  dsimp only
  by_cases same : queue.size = tsdoQueue.capacity
  · refine iff_of_true ?_ same
    rw [beq_iff_eq.mpr same]
    rfl
  · refine iff_of_false (fun unchanged => ?_) same
    rw [beq_false_of_ne same] at unchanged
    have grown : queue.size + 1 = queue.size := congrArg Object.size unchanged
    exact Nat.succ_ne_self _ grown

/-- A request changes neither a variable nor the queue. -/
theorem tryHandle_same {frame : Frame} (node : NodeId) (dictionary : List (OdEntry V))
    (server : SdoServer.Server V) (addressed : frame.id = rsdoCobId node) :
    (tryHandle node dictionary frame server).2.values = server.values ∧
        (tryHandle node dictionary frame server).2.queue = server.queue ↔
      (ExpeditedSdo.fromPayload frame.payload).cs = csAbort ∨ server.queue.size = tsdoQueue.capacity ∧
        Untouched dictionary (ExpeditedSdo.fromPayload frame.payload) server.values := by
  by_cases abort : (ExpeditedSdo.fromPayload frame.payload).cs = csAbort
  · rw [tryHandle_ignored fun answered => answered.2 abort]
    exact iff_of_true ⟨rfl, rfl⟩ (.inl abort)
  · rw [tryHandle_values ⟨addressed, abort⟩, result_values, or_iff_right abort, and_comm]
    unfold tryHandle
    rw [if_neg (not_not.mpr addressed)]
    simp only [if_neg abort]
    exact and_congr_left fun _ => push_same server.queue _

/-- An element is written with what it was. -/
theorem modify_same {T : Type} (list : List T) (i : ℕ) (f : T → T) :
    list.modify i f = list ↔ ∀ s, list[i]? = some s → f s = s := by
  constructor
  · intro same s present
    have modified := congrArg (·[i]?) same
    simp only [List.getElem?_modify_eq, present] at modified
    exact Option.some.inj modified
  · intro kept
    refine List.ext_getElem? fun j => ?_
    rw [List.getElem?_modify]
    by_cases same : i = j
    · subst same
      cases present : list[i]? with
      | none => rfl
      | some s => simp [kept s present]
    · simp [same]

variable {server : CanopenServer.Server V D} {frame : Frame} {now : Int}

theorem received_same (i : ℕ) (slot : RpdoConsumer.slotOf frame server.rpdo = some i) :
    (received i now server).rpdo = server.rpdo ∧ (∀ exchange ∈ handled i frame.payload server, exchange.1 = .clock) ↔
      ∀ s, server.rpdo[i]? = some s → s.lastRx = now ∧ s.timedOut = false ∧ s.handler = none := by
  obtain ⟨inside, _⟩ := List.findIdx?_eq_some_iff_getElem.mp slot
  have present := List.getElem?_eq_getElem inside
  unfold received handled
  simp only [modify_same, present, Option.some.injEq, forall_eq', Option.bind_some]
  generalize server.rpdo[i] = s
  obtain ⟨timer, cobId, handler, onTimeout⟩ := s
  obtain ⟨timeout, lastRx, timedOut⟩ := timer
  cases handler with
  | none => simp [eq_comm]
  | some handler => simp

theorem heard_same (i : ℕ) :
    (heard i now server).watches = server.watches ↔
      ∀ w, server.watches[i]? = some w → w.lastRx = now ∧ w.timedOut = false := by
  unfold heard
  rw [modify_same]
  refine forall_congr' fun w => imp_congr_right fun _ => ?_
  obtain ⟨timer, cobId, remote, onLost⟩ := w
  obtain ⟨timeout, lastRx, timedOut⟩ := timer
  simp [eq_comm]

theorem resets_same (command : NmtCommand) :
    (∀ exchange ∈ resets command server, exchange.1 = .clock) ↔ resetHandler server command = none := by
  unfold resets
  cases resetHandler server command with
  | none => exact iff_of_true nofun rfl
  | some handler => simp

/-! ## Frames -/

/-- One frame. -/
theorem dispatches_unaffected {after : CanopenServer.Server V D} {exchanges : Exchanges D}
    (dispatches : Dispatches options dictionary frame server after exchanges)
    (reading : ∀ time rest, exchanges = ⟨.clock, time⟩ :: rest → time = now) :
    Unaffected server after exchanges ↔ Harmless options dictionary frame server now := by
  unfold Harmless
  cases dispatches with
  | unknown nmt decoded =>
    rw [consumer_nmt server nmt, decoded]
    exact iff_of_true ⟨rfl, rfl, rfl, rfl, rfl, nofun⟩ nofun
  | stays nmt decoded same =>
    rw [consumer_nmt server nmt, decoded]
    simp only [Option.some.injEq, forall_eq', same, true_and]
    rw [← resets_same]
    exact ⟨fun unaffected => unaffected.called, fun silent => ⟨rfl, rfl, rfl, rfl, rfl, silent⟩⟩
  | enters nmt decoded different time =>
    rw [consumer_nmt server nmt, decoded]
    simp only [Option.some.injEq, forall_eq']
    exact iff_of_false (fun unaffected => different unaffected.nmtState) fun harmless => different harmless.1
  | request other addressed =>
    have claimed : consumer options.nodeId frame server = some .sdo :=
      (if_neg (of_decide_eq_false other)).trans (if_pos addressed)
    rw [claimed]
    dsimp only
    rw [← tryHandle_same options.nodeId dictionary server.sdo addressed]
    exact ⟨fun unaffected => ⟨unaffected.values, unaffected.queue⟩,
      fun same => ⟨rfl, same.1, same.2, rfl, rfl, nofun⟩⟩
  | process other process time processes =>
    obtain rfl := reading time _ rfl
    rw [consumer_process server other process]
    cases processes with
    | ignored slot state =>
      rw [slot]
      refine iff_of_true ⟨rfl, rfl, rfl, rfl, rfl, ?_⟩ fun operational => absurd operational state
      exact List.forall_mem_singleton.mpr rfl
    | received slot state =>
      rw [slot]
      dsimp only
      rw [← received_same _ slot]
      constructor
      · intro unaffected _
        exact ⟨unaffected.rpdo, fun exchange member => unaffected.called exchange (List.mem_cons_of_mem _ member)⟩
      · intro same
        exact ⟨rfl, rfl, rfl, (same state).1, rfl, List.forall_mem_cons.mpr ⟨rfl, (same state).2⟩⟩
    | heard absent slot =>
      rw [absent, slot]
      dsimp only [Option.map_some]
      rw [← heard_same]
      exact ⟨fun unaffected => unaffected.watches, fun same =>
        ⟨rfl, rfl, rfl, rfl, same, List.forall_mem_singleton.mpr rfl⟩⟩
    | unknown absent silent =>
      rw [absent, silent]
      exact iff_of_true ⟨rfl, rfl, rfl, rfl, rfl, List.forall_mem_singleton.mpr rfl⟩ trivial

/-- A frame that does not act leaves nothing changed. -/
theorem unaffected_same {after : CanopenServer.Server V D} {exchanges : Exchanges D}
    (dispatches : Dispatches options dictionary frame server after exchanges)
    (unaffected : Unaffected server after exchanges) : after = server := by
  have values := unaffected.values
  have queue := unaffected.queue
  have rpdo := unaffected.rpdo
  have watches := unaffected.watches
  cases dispatches with
  | unknown nmt decoded => rfl
  | stays nmt decoded same => rfl
  | enters nmt decoded different time => exact absurd unaffected.nmtState different
  | request other addressed =>
    generalize tryHandle options.nodeId dictionary frame server.sdo = outcome at *
    obtain ⟨_, ⟨after, sent⟩⟩ := outcome
    cases server
    cases values
    cases queue
    rfl
  | process other process time processes =>
    cases processes with
    | ignored slot state => rfl
    | received slot state => exact congrArg (fun rpdo => { server with rpdo := rpdo }) rpdo
    | heard absent slot => exact congrArg (fun watches => { server with watches := watches }) watches
    | unknown absent silent => rfl

/-! ## Batches -/

section Batches
variable {W : Type} {handler : (effect : Effect D) → W → CanopenServices.Reply effect × W} {world final : W}

/-- Looking at the clock does not change the world. -/
theorem replied_clock {exchanges : Exchanges D} (clock : ∀ world, (handler .clock world).2 = world)
    (only : ∀ exchange ∈ exchanges, exchange.1 = .clock)
    (replied : Replied handler exchanges world final) :
    final = world := by
  induction exchanges generalizing world with
  | nil => exact replied
  | cons exchange rest ih =>
    obtain ⟨effect, reply⟩ := exchange
    obtain rfl : effect = .clock := only _ List.mem_cons_self
    have later := ih (fun exchange member => only exchange (List.mem_cons_of_mem _ member)) replied.2
    rw [later, clock]

theorem run_harmless (clock : ∀ world, (handler .clock world).2 = world)
    (harmless : Harmless options dictionary frame server (handler .clock world).1) :
    run handler (dispatchRx options dictionary frame server) world = (server, world) := by
  obtain ⟨exchanges, dispatches, replied⟩ := yields_run handler (dispatchRx_yields frame server) world
  have reading : ∀ time rest, exchanges = ⟨.clock, time⟩ :: rest → time = (handler .clock world).1 := by
    rintro time rest rfl
    exact replied.1
  have unaffected := (dispatches_unaffected dispatches reading).mpr harmless
  exact Prod.ext (unaffected_same dispatches unaffected) (replied_clock clock unaffected.called replied)

/-- Every extended frame of a batch is harmless where the frames before it have led. -/
def Meets (options : Options) (dictionary : List (OdEntry V))
    (handler : (effect : Effect D) → W → CanopenServices.Reply effect × W) :
    List Frame → CanopenServer.Server V D → W → Prop
  | [], _, _ => True
  | frame :: rest, server, world =>
    (frame.format = .extended → Harmless options dictionary frame server (handler .clock world).1) ∧
      Meets options dictionary handler rest (run handler (dispatchRx options dictionary frame server) world).1
        (run handler (dispatchRx options dictionary frame server) world).2

def standardFrames (frames : List Frame) : List Frame :=
  frames.filter fun frame => frame.format = .standard

/-- Harmless extended frames may as well be left out. -/
theorem dispatchAll_standard (clock : ∀ world, (handler .clock world).2 = world) (frames : List Frame)
    (server : CanopenServer.Server V D) (world : W)
    (meets : Meets options dictionary handler frames server world) :
    run handler (dispatchAll options dictionary frames server) world =
      run handler (dispatchAll options dictionary (standardFrames frames) server) world := by
  induction frames generalizing server world with
  | nil => rfl
  | cons frame rest ih =>
    obtain ⟨harmless, later⟩ := meets
    rw [dispatchAll, run_bind, ih _ _ later]
    cases format : frame.format with
    | standard =>
      have kept : standardFrames (frame :: rest) = frame :: standardFrames rest := by
        simp [standardFrames, format]
      rw [kept, dispatchAll, run_bind]
    | extended =>
      have left : standardFrames (frame :: rest) = standardFrames rest := by simp [standardFrames, format]
      rw [left, run_harmless clock (harmless format)]

end Batches

/-- An extended frame does not act on the server exactly when it is harmless: it is for no
service, or it is a command without effect, an aborted or dropped request that changes no
variable, or process data or a heartbeat at a time at which they change nothing. Where all of
them are, a batch does what its standard frames do. -/
theorem extended_unaffected_iff (options : Options) (dictionary : List (OdEntry V)) :
    (∀ (frame : Frame) (server : CanopenServer.Server V D) (now : Int),
      (dispatchRx options dictionary { frame with format := .extended } server).Yields fun after exchanges =>
        (∀ time, (⟨.clock, time⟩ : Sigma CanopenServices.Reply) ∈ exchanges → time = now) →
          (Unaffected server after exchanges ↔
            Harmless options dictionary { frame with format := .extended } server now)) ∧
    ∀ (W : Type) (handler : (effect : Effect D) → W → CanopenServices.Reply effect × W), (∀ world, (handler .clock world).2 = world) →
      ∀ (frames : List Frame) (server : CanopenServer.Server V D) (world : W),
        Meets options dictionary handler frames server world →
          run handler (dispatchAll options dictionary frames server) world =
            run handler (dispatchAll options dictionary (standardFrames frames) server) world := by
  refine ⟨fun frame server now => ?_, fun W handler clock => dispatchAll_standard clock⟩
  refine yields_mono (dispatchRx_yields _ server) fun after exchanges dispatches clock => ?_
  refine dispatches_unaffected dispatches fun time rest first => clock time ?_
  rw [first]
  exact List.mem_cons_self

/-! ## One node -/

def testingOptions : Options where
  nodeId := NodeId.five

/-- A server after its construction, without process data. -/
def testingServer : CanopenServer.Server Unit Unit where
  rxQueue := []
  nmtState := .preOperational
  hbProducer := {}
  syncProducer := {}
  watches := []
  sdo := { values := (), queue := .initial }
  tpdo := []
  rpdo := []
  onNmtChange := none
  onResetNode := none
  onResetCommunication := none

/-- A world in which nothing happens. -/
def testingWorld : (effect : Effect Unit) → Unit → CanopenServices.Reply effect × Unit
  | .clock, _ => ((5 : Int), ())
  | .send .., _ => (true, ())
  | .addFilter _, _ => ((), ())
  | .nmtChange .., _ => ((), ())
  | .reset _, _ => ((), ())
  | .receive .., _ => ((), ())
  | .timeout _, _ => ((), ())
  | .provide _, _ => (Vector.replicate 8 0, ())
  | .lost .., _ => ((), ())

/-- The command to start, in a frame of this format. -/
def startFrame (format : Format) : Frame where
  format := format
  id := 0
  len := 2
  payload := #v[0x01, 0x00, 0, 0, 0, 0, 0, 0]

def strayFrame : Frame where
  format := .extended
  id := 0x123
  len := 0
  payload := Vector.replicate 8 0

theorem extended_unaffected_iff_testing :
    run testingWorld (dispatchAll testingOptions [] [strayFrame, startFrame .standard] testingServer) () =
      run testingWorld (dispatchAll testingOptions [] [startFrame .standard] testingServer) () :=
  (extended_unaffected_iff testingOptions []).2 Unit testingWorld (fun _ => rfl) [strayFrame, startFrame .standard]
    testingServer () ⟨fun _ => trivial, fun extended => absurd extended (by decide), trivial⟩

/-- The server starts at an extended frame with the identifier of the network management. -/
theorem extended_start_acts :
    ¬(dispatchRx testingOptions [] (startFrame .extended) testingServer).Yields (Unaffected testingServer) := by
  intro yields
  have unaffected := yields 5
  exact absurd unaffected.nmtState (by decide)

end Emblib.ExtendedFrames
