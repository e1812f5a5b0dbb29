import Emblib.CanopenDispatch

/-! The server follows the network management frame by frame. What the application and the bus
have told a server so far is enough to say which state it is in, and which handlers it has
called; the server's queue, its services and its timers are not needed for that. -/
namespace Emblib.NmtDispatch
open Programs Watchdogs Can CanopenServices CanopenServer CanopenDispatch

variable {V D : Type} {options : Options} {dictionary : List (ObjectDictionary.OdEntry V)}

/-! ## What is expected -/

/-- The state that a frame commands the node to enter. -/
def commanded (node : NodeId) (frame : Frame) : Option NmtState :=
  if frame.id = 0 ∧ 2 ≤ frame.len ∧ (frame.byte1 = 0 ∨ frame.byte1 = node.value) then
    if frame.byte0 = 0x01 then some .operational
    else if frame.byte0 = 0x02 then some .stopped
    else if frame.byte0 = 0x80 ∨ frame.byte0 = 0x81 ∨ frame.byte0 = 0x82 then
      some .preOperational
    else none
  else none

/-- What the commands so far tell about a server: the frames that wait, the state, the
handler of its changes, the identifier and the handler of each received object, and the
calls of these handlers. -/
structure Expected (D : Type) where
  pending : List Frame
  state : NmtState
  onNmtChange : Option D
  objects : List (Option ℕ × Option D)
  calls : List (Effect D)

namespace Expected

/-- An actual change of the state is announced once, with the new state. -/
def enter (s : NmtState) (expected : Expected D) : Expected D :=
  if s = expected.state then expected
  else { expected with
    state := s
    calls := expected.calls ++ expected.onNmtChange.toList.map (.nmtChange · s) }

/-- The handler for a frame, that of the first object with its identifier. -/
def receiver (frame : Frame) (expected : Expected D) : Option D :=
  (expected.objects.find? fun object => object.1 = some frame.id).bind (·.2)

/-- A frame that a service of higher priority claims is not received, and in no state other
than operational is any. -/
def process (node : NodeId) (expected : Expected D) (frame : Frame) : Expected D :=
  match commanded node frame with
  | some s => expected.enter s
  | none =>
    if frame.id = 0 ∨ frame.id = 0x600 + node.value.toNat ∨ expected.state ≠ .operational then expected
    else { expected with
      calls := expected.calls ++ (expected.receiver frame).toList.map (.receive · frame.payload) }

def after (expected : Expected D) : Command options D → Expected D
  | .receive frame =>
    if expected.pending.length < options.rxQueueCapacity then { expected with pending := expected.pending ++ [frame] }
    else expected
  | .run => expected.pending.foldl (process options.nodeId) { expected with pending := [] }
  | .start => expected.enter .operational
  | .stop => expected.enter .stopped
  | .setupRpdo i cobId _ cfg =>
    { expected with
      objects := expected.objects.modify (i - 1) fun _ => (some (cobId.resolve .rpdo i options.nodeId), cfg.handler) }
  | .onNmtChange handler => { expected with onNmtChange := handler }
  | _ => expected

def initial (options : Options) : Expected D where
  pending := []
  state := .preOperational
  onNmtChange := none
  objects := List.replicate options.rpdoCount (none, none)
  calls := []

end Expected

/-! ## What is called -/

/-- A call of the handler of state changes or of received process data. -/
def IsCall : Effect D → Bool
  | .nmtChange .. => true
  | .receive .. => true
  | _ => false

/-- The calls among the exchanges of a server, in order. -/
def calls (exchanges : Exchanges D) : List (Effect D) := (exchanges.map (·.1)).filter IsCall

@[simp] theorem calls_nil : calls ([] : Exchanges D) = [] := rfl

@[simp] theorem calls_append (first second : Exchanges D) :
    calls (first ++ second) = calls first ++ calls second := by
  simp only [calls, List.map_append, List.filter_append]

@[simp] theorem calls_clock (now : Int) (rest : Exchanges D) :
    calls (⟨.clock, now⟩ :: rest) = calls rest := rfl

theorem calls_none {exchanges : Exchanges D} (none : ∀ exchange ∈ exchanges, IsCall exchange.1 = false) :
    calls exchanges = [] := filter_effects_none none

theorem resets_silent (command : NmtCommand) (server : Server V D) :
    ∀ exchange ∈ resets command server, IsCall exchange.1 = false := by
  unfold resets
  cases resetHandler server command with
  | none => exact nofun
  | some handler =>
    intro exchange member
    cases List.mem_singleton.mp member
    rfl

@[simp] theorem calls_announced (s : NmtState) (now : Int) (server : Server V D) :
    calls (announced s now server) = server.onNmtChange.toList.map (.nmtChange · s) := by
  unfold announced
  cases server.onNmtChange with
  | none => rfl
  | some handler => rfl

@[simp] theorem calls_handled (i : ℕ) (payload : Payload) (server : Server V D) :
    calls (handled i payload server) = (server.rpdo[i]?.bind (·.handler)).toList.map (.receive · payload) := by
  unfold handled
  cases server.rpdo[i]?.bind (·.handler) with
  | none => rfl
  | some handler => rfl

/-- The command of a frame, read as the server reads it. -/
theorem commanded_eq (node : NodeId) (frame : Frame) :
    commanded node frame = if nmtMatch frame then (nmtDecode node frame).map target else none := by
  unfold commanded nmtMatch nmtDecode
  simp only [decide_eq_true_eq]
  by_cases id : frame.id = nmtCobId
  · rw [if_pos id]
    by_cases short : frame.len < 2
    · rw [if_neg fun all => Nat.not_le.mpr short all.2.1, if_pos short, Option.map_none]
    · rw [if_neg short]
      by_cases own : frame.byte1 = 0 ∨ frame.byte1 = node.value
      · have addressed : ¬(frame.byte1 ≠ 0 ∧ frame.byte1 ≠ node.value) := fun foreign =>
          own.elim foreign.1 foreign.2
        rw [if_pos ⟨id, Nat.le_of_not_lt short, own⟩, if_neg addressed]
        simp only [apply_ite (Option.map target), Option.map_some, Option.map_none, target, ite_or]
      · rw [if_neg fun all => own all.2.2, if_pos (not_or.mp own), Option.map_none]
  · rw [if_neg fun all => id all.1, if_neg id]

theorem commanded_match {node : NodeId} {frame : Frame} (nmt : nmtMatch frame = true) :
    commanded node frame = (nmtDecode node frame).map target := by
  rw [commanded_eq, if_pos nmt]

theorem commanded_other {node : NodeId} {frame : Frame} (other : nmtMatch frame = false) :
    commanded node frame = none := by
  rw [commanded_eq, if_neg (Bool.eq_false_iff.mp other)]

/-! ## The server as expected -/

/-- What a frame and a configuration decide about an object. -/
def objectOf (s : RpdoSlot D) : Option ℕ × Option D := (s.cobId, s.handler)

/-- The server is as expected, and it has called what it is expected to have called. -/
structure Tracks (expected : Expected D) (server : Server V D) (past : Exchanges D) : Prop where
  pending : server.rxQueue = expected.pending
  state : server.nmtState = expected.state
  initialized : expected.state ≠ .initializing
  onNmtChange : server.onNmtChange = expected.onNmtChange
  objects : server.rpdo.map objectOf = expected.objects
  calls : calls past = expected.calls

variable {expected : Expected D} {server : Server V D} {past : Exchanges D}

theorem resetTimers_objects (now : Int) (slots : List (RpdoSlot D)) :
    (RpdoConsumer.resetTimers now slots).map objectOf = slots.map objectOf := by
  unfold RpdoConsumer.resetTimers
  rw [List.map_map]
  rfl

/-- Exchanges that are no calls change nothing that is expected. -/
theorem Tracks.silent (tracks : Tracks expected server past) {exchanges : Exchanges D}
    (none : ∀ exchange ∈ exchanges, IsCall exchange.1 = false) :
    Tracks expected server (past ++ exchanges) :=
  { tracks with calls := by rw [calls_append, calls_none none, List.append_nil, tracks.calls] }

theorem Tracks.still (tracks : Tracks expected server past) :
    Tracks expected server (past ++ []) := tracks.silent nofun

/-- The state is entered and announced as expected. -/
theorem Tracks.entered (tracks : Tracks expected server past) {s : NmtState}
    (initialized : s ≠ .initializing) (different : s ≠ server.nmtState) (now : Int) :
    Tracks (expected.enter s) (entered s now server) (past ++ announced s now server) := by
  unfold Expected.enter
  rw [if_neg (tracks.state ▸ different)]
  constructor
  case pending => exact tracks.pending
  case state => rfl
  case initialized => exact initialized
  case onNmtChange => exact tracks.onNmtChange
  case objects =>
    rw [← tracks.objects]
    simp only [CanopenDispatch.entered]
    split
    · exact resetTimers_objects now server.rpdo
    · rfl
  case calls => rw [calls_append, calls_announced, tracks.calls, tracks.onNmtChange]

theorem Tracks.stays (tracks : Tracks expected server past) {s : NmtState} (same : s = server.nmtState) :
    Tracks (expected.enter s) server past := by
  unfold Expected.enter
  rwa [if_pos (tracks.state ▸ same)]

theorem target_initialized (command : NmtCommand) : target command ≠ .initializing := by
  cases command with
  | start => exact nofun
  | stop => exact nofun
  | enterPreOperational => exact nofun
  | resetNode => exact nofun
  | resetCommunication => exact nofun

/-- The handler of the first object with the identifier of a frame. -/
theorem receiver_eq (tracks : Tracks expected server past) (frame : Frame) : expected.receiver frame =
    (RpdoConsumer.slotOf frame server.rpdo).bind fun i => server.rpdo[i]?.bind (·.handler) := by
  unfold Expected.receiver RpdoConsumer.slotOf
  rw [← tracks.objects, List.find?_map, List.find?_eq_bind_findIdx?_getElem?]
  unfold Function.comp objectOf
  cases server.rpdo.findIdx? fun s => s.cobId = some frame.id with
  | none => rfl
  | some i =>
    simp only [Option.bind_some]
    cases server.rpdo[i]? with
    | none => rfl
    | some s => rfl

theorem received_objects (i : ℕ) (now : Int) (server : Server V D) :
    (received i now server).rpdo.map objectOf = server.rpdo.map objectOf := by
  refine map_modify_same objectOf ?_ server.rpdo i
  exact fun _ => rfl

/-- One frame. -/
theorem dispatch_tracks (tracks : Tracks expected server past) {frame : Frame} {after : Server V D}
    {exchanges : Exchanges D} (dispatches : Dispatches options dictionary frame server after exchanges) :
    Tracks (expected.process options.nodeId frame) after (past ++ exchanges) := by
  unfold Expected.process
  cases dispatches with
  | unknown nmt decoded =>
    rw [commanded_match nmt, decoded, List.append_nil]
    dsimp only [Option.map_none]
    rwa [if_pos (.inl (of_decide_eq_true nmt))]
  | stays nmt decoded same =>
    rw [commanded_match nmt, decoded]
    exact (tracks.stays same).silent (resets_silent _ server)
  | enters nmt decoded different now =>
    rw [commanded_match nmt, decoded, ← List.append_assoc]
    exact (tracks.silent (resets_silent _ server)).entered (target_initialized _) different now
  | request other sdo =>
    rw [commanded_other other, List.append_nil]
    dsimp only
    rw [if_pos (.inr (.inl sdo))]
    exact { tracks with }
  | process other process now processes =>
    rw [commanded_other other]
    dsimp only
    have receiver := receiver_eq tracks frame
    cases processes with
    | ignored slot state =>
      rw [if_pos (.inr (.inr (tracks.state ▸ state)))]
      exact { tracks with calls := by rw [calls_append, calls_clock, calls_nil, List.append_nil, tracks.calls] }
    | received slot state =>
      have free : ¬(frame.id = 0 ∨ frame.id = 0x600 + options.nodeId.value.toNat ∨ expected.state ≠ .operational) := by
        rintro (nmt | sdo | elsewhere)
        · exact of_decide_eq_false other nmt
        · exact process sdo
        · exact elsewhere (tracks.state ▸ state)
      rw [if_neg free]
      exact { tracks with
        objects := by rw [received_objects, tracks.objects]
        calls := by
          rw [calls_append, calls_clock, calls_handled, tracks.calls, receiver, slot, Option.bind_some] }
    | heard absent slot =>
      rw [receiver, absent]
      simp only [Option.bind_none, Option.toList_none, List.map_nil, List.append_nil, ite_self]
      exact { tracks with calls := by rw [calls_append, calls_clock, calls_nil, List.append_nil, tracks.calls] }
    | unknown absent silent =>
      rw [receiver, absent]
      simp only [Option.bind_none, Option.toList_none, List.map_nil, List.append_nil, ite_self]
      exact { tracks with calls := by rw [calls_append, calls_clock, calls_nil, List.append_nil, tracks.calls] }

/-- A batch of frames, in order. -/
theorem dispatchAll_tracks (frames : List Frame) (tracks : Tracks expected server past) :
    (dispatchAll options dictionary frames server).Yields fun after exchanges =>
      Tracks (frames.foldl (Expected.process options.nodeId) expected) after (past ++ exchanges) := by
  induction frames generalizing expected server past with
  | nil => exact tracks.still
  | cons frame rest ih =>
    refine yields_bind.mpr (yields_mono (dispatchRx_yields frame server) fun middle first dispatches => ?_)
    refine yields_mono (ih (dispatch_tracks tracks dispatches)) fun after second later => ?_
    rwa [List.append_assoc] at later

theorem tickedSlots_objects (now : Int) (state : NmtState) (slots : List (RpdoSlot D)) :
    (tickedSlots now state slots).map objectOf = slots.map objectOf := by
  unfold tickedSlots
  split
  · rw [List.map_map]
    refine List.map_congr_left fun s _ => ?_
    simp only [Function.comp_apply]
    split
    · rfl
    · rfl
  · rfl

/-- No timeout, no frame that is sent and no heartbeat that is lost is a call. -/
theorem ticks_silent {now : Int} {after : Server V D} {emcys rest : Exchanges D}
    (ticks : Ticks options now server after emcys rest) :
    ∀ exchange ∈ (dueSlots now server.nmtState server.rpdo).flatMap timeoutCalls ++ (emcys ++ rest),
      IsCall exchange.1 = false := by
  intro exchange member
  obtain timeout | emcy | later := (List.mem_append.mp member).imp_right List.mem_append.mp
  · obtain ⟨handler, same⟩ := timeoutCalls_effect timeout
    rw [same]
    rfl
  · have sent : exchange.1 ∈ List.replicate _ (timeoutFrame options) :=
      ticks.emcys ▸ List.mem_map_of_mem emcy
    rw [(List.mem_replicate.mp sent).2]
    rfl
  · have allowed := ticks.rest exchange later
    generalize exchange.1 = effect at allowed
    cases effect with
    | send sender frame => rfl
    | provide handler => rfl
    | lost handler remote => rfl
    | clock => exact allowed.elim
    | addFilter id => exact allowed.elim
    | nmtChange handler state => exact allowed.elim
    | reset handler => exact allowed.elim
    | receive handler payload => exact allowed.elim
    | timeout handler => exact allowed.elim

theorem tick_tracks (tracks : Tracks expected server past) (now : Int) :
    (tickServices options now server).Yields fun after exchanges => Tracks expected after (past ++ exchanges) := by
  refine yields_mono (tickServices_yields now server) fun after exchanges outcome => ?_
  obtain ⟨emcys, rest, rfl, ticks⟩ := outcome
  have later := tracks.silent (ticks_silent ticks)
  exact { later with
    pending := ticks.ticked.rxQueue.trans tracks.pending
    state := ticks.ticked.nmtState.trans tracks.state
    onNmtChange := ticks.ticked.onNmtChange.trans tracks.onNmtChange
    objects := by rw [ticks.ticked.rpdo, tickedSlots_objects, tracks.objects] }

theorem clock_tracks (tracks : Tracks expected server past) (now : Int) :
    Tracks expected server (past ++ [⟨.clock, now⟩]) :=
  { tracks with calls := by rw [calls_append, calls_clock, calls_nil, List.append_nil, tracks.calls] }

theorem run_tracks (tracks : Tracks expected server past) :
    (runServer options dictionary server).Yields fun after exchanges =>
      Tracks (expected.after (.run : Command options D)) after (past ++ exchanges) := by
  refine yields_bind.mpr fun now => ?_
  have started : Tracks { expected with pending := [] } { server with rxQueue := [] } (past ++ [⟨.clock, now⟩]) :=
    { clock_tracks tracks now with pending := rfl }
  rw [tracks.pending]
  refine yields_bind.mpr (yields_mono (dispatchAll_tracks expected.pending started) fun middle first dispatched => ?_)
  refine yields_mono (tick_tracks dispatched now) fun after second ticked => ?_
  rw [List.append_assoc, List.append_assoc] at ticked
  exact ticked

theorem apply_tracks (tracks : Tracks expected server past) {s : NmtState}
    (initialized : s ≠ .initializing) :
    (applyNmtState s server).Yields fun after exchanges => Tracks (expected.enter s) after (past ++ exchanges) := by
  refine yields_mono (applyNmtState_yields s server) fun after exchanges outcome => ?_
  obtain ⟨same, rfl, rfl⟩ | ⟨different, now, rfl, rfl⟩ := outcome
  · rw [List.append_nil]
    exact tracks.stays same
  · exact tracks.entered initialized different now

theorem setup_objects (i : ℕ) (id : ℕ) (cfg : RpdoConfig D) (now : Int) (slots : List (RpdoSlot D)) :
    (slots.modify i fun s =>
      { s with
        handler := cfg.handler
        timeout := cfg.timeout
        onTimeout := cfg.onTimeout
        lastRx := now
        timedOut := false
        cobId := some id }).map objectOf = (slots.map objectOf).modify i fun _ => (some id, cfg.handler) :=
  map_modify objectOf (fun _ => (some id, cfg.handler)) (fun _ => rfl) slots i

/-- One command. -/
theorem perform_tracks (tracks : Tracks expected server past) (command : Command options D) :
    (perform options dictionary command server).Yields fun after exchanges =>
      Tracks (expected.after command) after (past ++ exchanges) := by
  cases command with
  | receive frame =>
    refine Tracks.still ?_
    unfold Expected.after enqueueRx
    dsimp only
    rw [← tracks.pending]
    split
    · exact { tracks with pending := rfl }
    · exact tracks
  | run => exact run_tracks tracks
  | start => exact apply_tracks tracks nofun
  | stop => exact apply_tracks tracks nofun
  | setupRpdo i cobId valid cfg =>
    refine yields_bind.mpr fun now => ?_
    have objects := setup_objects (i - 1) (cobId.resolve .rpdo i options.nodeId) cfg now server.rpdo
    have clocked := clock_tracks tracks now
    unfold RpdoConsumer.setup
    dsimp only
    split
    · refine fun _ => { clocked with objects := ?_, calls := ?_ }
      · rw [objects, tracks.objects]
        rfl
      · rw [calls_append]
        exact (List.append_nil _).trans tracks.calls
    · refine { clocked with objects := ?_ }
      rw [objects, tracks.objects]
      rfl
  | setupTpdo i cobId valid cfg => exact fun now => { clock_tracks tracks now with }
  | setHeartbeatPeriod period => exact fun now => { clock_tracks tracks now with }
  | setSyncPeriod period => exact fun now => { clock_tracks tracks now with }
  | onNmtChange handler => exact Tracks.still { tracks with onNmtChange := rfl }
  | onResetNode handler => exact Tracks.still { tracks with }
  | onResetCommunication handler => exact Tracks.still { tracks with }
  | watchHeartbeat remote timeout onLost =>
    refine yields_bind.mpr fun now => ?_
    have clocked := clock_tracks tracks now
    unfold HbConsumer.watch
    dsimp only
    split
    · exact { clocked with }
    · split
      · refine fun _ => { clocked with calls := ?_ }
        rw [calls_append]
        exact (List.append_nil _).trans tracks.calls
      · exact { clocked with }
  | emitEmcy errorCode errorRegister manufacturer =>
    refine fun sent => { tracks with calls := ?_ }
    rw [calls_append]
    exact (List.append_nil _).trans tracks.calls

/-- A history of commands. -/
theorem performAll_tracks (commands : List (Command options D)) (tracks : Tracks expected server past) :
    (performAll options dictionary commands server).Yields fun after exchanges =>
      Tracks (commands.foldl Expected.after expected) after (past ++ exchanges) := by
  induction commands generalizing expected server past with
  | nil => exact tracks.still
  | cons command rest ih =>
    refine yields_bind.mpr (yields_mono (perform_tracks tracks command) fun middle first performed => ?_)
    refine yields_mono (ih performed) fun after second later => ?_
    rwa [List.append_assoc] at later

theorem construct_tracks (options : Options) (values : V) :
    (construct (D := D) options values).Yields fun after exchanges =>
    Tracks (.initial options) after exchanges := by
  refine fun _ _ now => ?_
  constructor
  case pending => rfl
  case state => rfl
  case initialized => exact nofun
  case onNmtChange => rfl
  case objects => exact List.map_replicate
  case calls => rfl

/-! ## Who consumes a frame -/

inductive Service where
  | nmt
  | sdo
  | rpdo (i : ℕ)
  | heartbeat (i : ℕ)

/-- The one service that a frame is for, in order of priority. Among the objects and among the
watches it is the first with the identifier. -/
def consumer (node : NodeId) (frame : Frame) (server : Server V D) : Option Service :=
  if frame.id = 0 then some .nmt
  else if frame.id = 0x600 + node.value.toNat then some .sdo
  else
    match server.rpdo.findIdx? fun s => s.cobId = some frame.id with
    | some i => some (.rpdo i)
    | none => (server.watches.findIdx? fun w => w.cobId = frame.id).map .heartbeat

/-- Only the service that a frame is for acts on it and calls the application. Entering the
operational state restarts the timers of all received objects. -/
def Consumes (options : Options) (frame : Frame) (before after : Server V D)
    (called : Exchanges D) : Prop :=
  match consumer options.nodeId frame before with
  | some .nmt =>
    after = { before with nmtState := (commanded options.nodeId frame).getD before.nmtState, rpdo := after.rpdo } ∧
      (after.nmtState = before.nmtState ∨ after.nmtState ≠ .operational → after.rpdo = before.rpdo) ∧
      calls called = if after.nmtState = before.nmtState then []
        else before.onNmtChange.toList.map (.nmtChange · after.nmtState)
  | some .sdo => after = { before with sdo := after.sdo } ∧ called = []
  | some (.rpdo i) =>
    after = { before with rpdo := after.rpdo } ∧ (∀ j, j ≠ i → after.rpdo[j]? = before.rpdo[j]?) ∧
      calls called = if before.nmtState = .operational then
        (before.rpdo[i]?.bind (·.handler)).toList.map (.receive · frame.payload) else []
  | some (.heartbeat i) =>
    after = { before with watches := after.watches } ∧ (∀ j, j ≠ i → after.watches[j]? = before.watches[j]?) ∧
      ∀ exchange ∈ called, exchange.1 = .clock
  | none => after = before ∧ ∀ exchange ∈ called, exchange.1 = .clock

/-- The frames of a batch, each consumed in the state that the frames before it have left. -/
inductive Batch (options : Options) : List Frame → Server V D → Server V D → Exchanges D → Prop where
  | done : Batch options [] before before []
  | next (consumes : Consumes options frame before middle first) (rest : Batch options frames middle after second) :
      Batch options (frame :: frames) before after (first ++ second)

/-- Process data are sent, or a timeout of received ones is reported. -/
def IsProcessData : Effect D → Prop
  | .send .tpdo _ => True
  | .timeout _ => True
  | _ => False

/-- A run consumes the frames that wait, and then gives the services their time. -/
def Runs (options : Options) (server after : Server V D) (exchanges : Exchanges D) : Prop :=
  ∃ now middle dispatched ticked, exchanges = ⟨.clock, now⟩ :: (dispatched ++ ticked) ∧
    Batch options server.rxQueue { server with rxQueue := [] } middle dispatched ∧
    after.nmtState = middle.nmtState ∧ calls ticked = [] ∧
    (middle.nmtState ≠ .operational → ∀ exchange ∈ exchanges, ¬IsProcessData exchange.1)

theorem consumer_nmt {node : NodeId} {frame : Frame} (server : Server V D) (nmt : nmtMatch frame = true) :
    consumer node frame server = some .nmt := if_pos (of_decide_eq_true nmt)

theorem consumer_process {node : NodeId} {frame : Frame} (server : Server V D)
    (other : nmtMatch frame = false)
    (process : frame.id ≠ SdoServer.rsdoCobId node) : consumer node frame server =
      match RpdoConsumer.slotOf frame server.rpdo with
      | some i => some (.rpdo i)
      | none => (HbConsumer.slotOf frame server.watches).map .heartbeat :=
  (if_neg (of_decide_eq_false other)).trans (if_neg process)

theorem dispatches_consumes {frame : Frame} {after : Server V D} {exchanges : Exchanges D}
    (dispatches : Dispatches options dictionary frame server after exchanges) :
    Consumes options frame server after exchanges := by
  unfold Consumes
  cases dispatches with
  | unknown nmt decoded =>
    rw [consumer_nmt server nmt, commanded_match nmt, decoded]
    exact ⟨rfl, fun _ => rfl, (if_pos rfl).symm⟩
  | stays nmt decoded same =>
    rw [consumer_nmt server nmt, commanded_match nmt, decoded]
    refine ⟨by simp [same], fun _ => rfl, ?_⟩
    rw [if_pos rfl, calls_none (resets_silent _ server)]
  | enters nmt decoded different now =>
    rw [consumer_nmt server nmt, commanded_match nmt, decoded]
    refine ⟨rfl, fun elsewhere => if_neg (elsewhere.resolve_left different), ?_⟩
    rw [calls_append, calls_none (resets_silent _ server), calls_announced]
    exact (if_neg different).symm
  | request other sdo =>
    have claimed : consumer options.nodeId frame server = some .sdo :=
      (if_neg (of_decide_eq_false other)).trans (if_pos sdo)
    rw [claimed]
    exact ⟨rfl, rfl⟩
  | process other process now processes =>
    rw [consumer_process server other process]
    cases processes with
    | ignored slot state =>
      rw [slot]
      exact ⟨rfl, fun _ _ => rfl, (if_neg state).symm⟩
    | received slot state =>
      rw [slot]
      refine ⟨rfl, fun j other => List.getElem?_modify_ne _ _ other.symm, ?_⟩
      rw [calls_clock, calls_handled]
      exact (if_pos state).symm
    | heard absent slot =>
      rw [absent, slot]
      refine ⟨rfl, fun j other => List.getElem?_modify_ne _ _ other.symm, fun exchange member => ?_⟩
      rw [List.mem_singleton.mp member]
    | unknown absent silent =>
      rw [absent, silent]
      refine ⟨rfl, fun exchange member => ?_⟩
      rw [List.mem_singleton.mp member]

theorem answers_quiet {effect : Effect D} (answers : Answers effect) : ¬IsProcessData effect := by
  cases effect with
  | send sender frame => exact answers.elim
  | timeout handler => exact answers.elim
  | _ => exact nofun

theorem dispatchAll_batch (options : Options) (dictionary : List (ObjectDictionary.OdEntry V))
    (frames : List Frame)
    (server : Server V D) : (dispatchAll options dictionary frames server).Yields fun after exchanges =>
      Batch options frames server after exchanges ∧ ∀ exchange ∈ exchanges, Answers exchange.1 := by
  induction frames generalizing server with
  | nil => exact ⟨.done, nofun⟩
  | cons frame rest ih =>
    refine yields_bind.mpr (yields_mono (dispatchRx_yields frame server) fun middle first dispatches => ?_)
    refine yields_mono (ih middle) fun after second later => ?_
    exact ⟨.next (dispatches_consumes dispatches) later.1,
      List.forall_mem_append.mpr ⟨dispatches_answers dispatches, later.2⟩⟩

/-- In any other state than operational, a tick neither sends nor misses process data. -/
theorem ticks_quiet {now : Int} {after : Server V D} {emcys rest : Exchanges D}
    (ticks : Ticks options now server after emcys rest) (state : server.nmtState ≠ .operational) :
    ∀ exchange ∈ (dueSlots now server.nmtState server.rpdo).flatMap timeoutCalls ++ (emcys ++ rest),
      ¬IsProcessData exchange.1 := by
  have none : dueSlots now server.nmtState server.rpdo = [] := if_neg state
  have nothing : emcys = [] := by
    have sent := ticks.emcys
    rw [none] at sent
    exact List.map_eq_nil_iff.mp sent
  rw [none, nothing]
  intro exchange member
  have allowed := ticks.rest exchange member
  generalize exchange.1 = effect at allowed
  cases effect with
  | send sender frame =>
    cases sender with
    | tpdo => exact fun _ => allowed.2 state rfl
    | sdo => exact nofun
    | heartbeat => exact nofun
    | sync => exact nofun
    | emcy => exact nofun
  | timeout handler => exact allowed.elim
  | clock => exact nofun
  | addFilter id => exact nofun
  | nmtChange handler state => exact nofun
  | reset handler => exact nofun
  | receive handler payload => exact nofun
  | provide handler => exact nofun
  | lost handler remote => exact nofun

theorem run_yields (server : Server V D) :
    (runServer options dictionary server).Yields (Runs options server) := by
  refine yields_bind.mpr fun now => ?_
  have batch := dispatchAll_batch options dictionary server.rxQueue { server with rxQueue := [] }
  refine yields_bind.mpr (yields_mono batch fun middle dispatched holds => ?_)
  refine yields_mono (tickServices_yields now middle) fun after ticked outcome => ?_
  obtain ⟨emcys, rest, rfl, ticks⟩ := outcome
  refine ⟨now, middle, dispatched, _, rfl, holds.1, ticks.ticked.nmtState, calls_none (ticks_silent ticks), fun state => ?_⟩
  have quiet : ∀ exchange ∈ dispatched, ¬IsProcessData exchange.1 := fun exchange member =>
    answers_quiet (holds.2 exchange member)
  have later := List.forall_mem_append.mpr ⟨quiet, ticks_quiet ticks state⟩
  exact List.forall_mem_cons.mpr ⟨nofun, later⟩

/-- A server of any history, whatever the clock, the bus and the application reply: its state is
the fold of the commands and of the frames that it has processed, never the initial one, and it
has called the handlers of state changes and of received process data exactly as these tell.
In each run every frame is consumed by at most one service, and a run that reaches its tick in a
state other than operational neither sends process data nor reports a timeout of received ones. -/
theorem dispatch_follows_nmt (options : Options) (dictionary : List (ObjectDictionary.OdEntry V))
    (values : V) (commands : List (Command options D)) :
    ((history options dictionary values commands).Yields fun server exchanges =>
      server.nmtState = (commands.foldl Expected.after (.initial options)).state ∧
        server.nmtState ≠ .initializing ∧
        calls exchanges = (commands.foldl Expected.after (.initial options)).calls) ∧
    ∀ server : Server V D, (runServer options dictionary server).Yields (Runs options server) := by
  refine ⟨?_, run_yields⟩
  refine yields_bind.mpr (yields_mono (construct_tracks options values) fun server first constructed => ?_)
  refine yields_mono (performAll_tracks commands constructed) fun after second tracks => ?_
  exact ⟨tracks.state, tracks.state ▸ tracks.initialized, tracks.calls⟩

end Emblib.NmtDispatch
