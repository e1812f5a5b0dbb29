import Emblib.NmtDispatch

/-! The identifiers of CANopen keep services and nodes apart. Of all the frames that a server with
predefined identifiers sends, another server, or the same one, acts on its heartbeats alone. -/
namespace Emblib.CobIdSeparation
open Programs Watchdogs Can CanopenServices CanopenServer CanopenDispatch NmtDispatch

variable {V D : Type} {options : Options} {dictionary : List (ObjectDictionary.OdEntry V)} {server : Server V D}

/-! ## Identifiers -/

/-- Process data are set up with predefined identifiers. -/
def Predefined : Command options D → Prop
  | .setupRpdo _ cobId _ _ => cobId = .predefined
  | .setupTpdo _ cobId _ _ => cobId = .predefined
  | _ => True

/-- The identifier is one of the four that are predefined for the process data of the node. -/
def PdoOf (service : CobType) (node : NodeId) (id : ℕ) : Prop :=
  ∃ i, 1 ≤ i ∧ i ≤ 4 ∧ id = pdoCobId service i node

/-- The identifiers with which a service of the node sends. -/
def SentWith (node : NodeId) (id : ℕ) : Sender → Prop
  | .tpdo => PdoOf .tpdo node id
  | .sdo => id = peerCobId .tsdo node
  | .heartbeat => id = peerCobId .heartbeat node
  | .sync => id = broadcastCobId .sync
  | .emcy => id = peerCobId .emcy node

def Issued (node : NodeId) : Effect D → Prop
  | .send sender frame => SentWith node frame.id sender
  | _ => True

/-- What a server has been told to send, to receive and to watch. -/
structure Names where
  sent : List (ℕ × Bool)
  received : List (Option ℕ)
  watched : List (ℕ × NodeId)

def sentOf (s : TpdoSlot D) : ℕ × Bool := (s.cobId, s.provider.isSome)

def watchedOf (w : WatchSlot D) : ℕ × NodeId := (w.cobId, w.remote)

def names (server : Server V D) : Names where
  sent := server.tpdo.map sentOf
  received := server.rpdo.map RpdoSlot.cobId
  watched := server.watches.map watchedOf

/-- All identifiers are the predefined ones; an object without a provider is not sent. -/
structure Names.Proper (node : NodeId) (names : Names) : Prop where
  sent : ∀ id, (id, true) ∈ names.sent → PdoOf .tpdo node id
  received : ∀ id, some id ∈ names.received → PdoOf .rpdo node id
  watched : ∀ pair ∈ names.watched, pair.1 = peerCobId .heartbeat pair.2

/-! ## Services that keep the names -/

theorem resetTimers_received (now : Int) (slots : List (RpdoSlot D)) :
    (RpdoConsumer.resetTimers now slots).map RpdoSlot.cobId = slots.map RpdoSlot.cobId := by
  unfold RpdoConsumer.resetTimers
  rw [List.map_map]
  rfl

theorem entered_names (s : NmtState) (now : Int) (server : Server V D) : names (entered s now server) = names server := by
  unfold names entered
  dsimp only
  split
  · rw [resetTimers_received]
  · rfl

theorem received_names (i : ℕ) (now : Int) (server : Server V D) : names (received i now server) = names server := by
  unfold names received
  dsimp only
  rw [map_modify_same RpdoSlot.cobId]
  exact fun _ => rfl

theorem heard_names (i : ℕ) (now : Int) (server : Server V D) : names (heard i now server) = names server := by
  unfold names heard
  dsimp only
  rw [map_modify_same watchedOf]
  exact fun _ => rfl

theorem dispatches_names {frame : Frame} {after : Server V D} {exchanges : Exchanges D}
    (dispatches : Dispatches options dictionary frame server after exchanges) : names after = names server := by
  cases dispatches with
  | unknown nmt decoded => rfl
  | stays nmt decoded same => rfl
  | enters nmt decoded different now => exact entered_names _ now server
  | request other sdo => rfl
  | process other process now processes =>
    cases processes with
    | ignored slot state => rfl
    | received slot state => exact received_names _ now server
    | heard absent slot => exact heard_names _ now server
    | unknown absent silent => rfl

theorem answers_issued {node : NodeId} {effect : Effect D} (answers : Answers effect) : Issued node effect := by
  cases effect with
  | send sender frame => exact answers.elim
  | _ => trivial

/-- An operation that keeps the names, and sends as it should. -/
def Keeps (node : NodeId) (server after : Server V D) (exchanges : Exchanges D) : Prop :=
  names after = names server ∧ ∀ exchange ∈ exchanges, Issued node exchange.1

theorem dispatchAll_keeps (frames : List Frame) (server : Server V D) :
    (dispatchAll options dictionary frames server).Yields (Keeps options.nodeId server) := by
  induction frames generalizing server with
  | nil => exact ⟨rfl, nofun⟩
  | cons frame rest ih =>
    refine yields_bind.mpr (yields_mono (dispatchRx_yields frame server) fun middle first dispatches => ?_)
    refine yields_mono (ih middle) fun after second later => ⟨later.1.trans (dispatches_names dispatches), ?_⟩
    have issued : ∀ exchange ∈ first, Issued options.nodeId exchange.1 := fun exchange member =>
      answers_issued (dispatches_answers dispatches exchange member)
    exact List.forall_mem_append.mpr ⟨issued, later.2⟩

theorem apply_keeps (s : NmtState) (server : Server V D) :
    (applyNmtState s server).Yields (Keeps options.nodeId server) := by
  refine yields_mono (applyNmtState_yields s server) fun after exchanges outcome => ?_
  obtain ⟨_, rfl, rfl⟩ | ⟨_, now, rfl, rfl⟩ := outcome
  · exact ⟨rfl, nofun⟩
  · refine ⟨entered_names s now server, List.forall_mem_cons.mpr ⟨trivial, ?_⟩⟩
    cases server.onNmtChange with
    | none => exact nofun
    | some handler => exact List.forall_mem_singleton.mpr trivial

/-! ## The tick phase -/

theorem tickSlot_issued {node : NodeId} {s : TpdoSlot D} (proper : s.provider.isSome = true → PdoOf .tpdo node s.cobId)
    (now : Int) :
    (TpdoProducer.tickSlot now s).Yields fun after exchanges =>
      sentOf after = sentOf s ∧ ∀ exchange ∈ exchanges, Issued node exchange.1 := by
  unfold TpdoProducer.tickSlot
  cases provider : s.provider with
  | none => exact ⟨rfl, nofun⟩
  | some handler =>
    dsimp only
    split
    · exact ⟨rfl, nofun⟩
    · split
      · exact ⟨rfl, nofun⟩
      · intro payload sent
        constructor
        · cases sent with
          | false => rfl
          | true => exact congrArg (Prod.mk s.cobId) (congrArg Option.isSome provider.symm)
        · refine List.forall_mem_cons.mpr ⟨trivial, List.forall_mem_singleton.mpr ?_⟩
          exact proper (by rw [provider]; rfl)

theorem tickSlots_issued {node : NodeId} {slots : List (TpdoSlot D)}
    (proper : ∀ s ∈ slots, s.provider.isSome = true → PdoOf .tpdo node s.cobId) (now : Int) :
    (TpdoProducer.tickSlots now slots).Yields fun after exchanges =>
      after.map sentOf = slots.map sentOf ∧ ∀ exchange ∈ exchanges, Issued node exchange.1 := by
  induction slots with
  | nil => exact ⟨rfl, nofun⟩
  | cons s rest ih =>
    obtain ⟨first, others⟩ := List.forall_mem_cons.mp proper
    refine yields_bind.mpr (yields_mono (tickSlot_issued first now) fun after own told => ?_)
    refine yields_bind.mpr (yields_mono (ih others) fun slots later said => ⟨?_, ?_⟩)
    · rw [List.map_cons, List.map_cons, told.1, said.1]
    · rw [List.append_nil]
      exact List.forall_mem_append.mpr ⟨told.2, said.2⟩

theorem tpdoTick_issued {node : NodeId} (proper : (names server).Proper node) (now : Int) (state : NmtState) :
    (TpdoProducer.tick now state server.tpdo).Yields fun after exchanges =>
      after.map sentOf = server.tpdo.map sentOf ∧ ∀ exchange ∈ exchanges, Issued node exchange.1 := by
  unfold TpdoProducer.tick
  split
  · exact ⟨rfl, nofun⟩
  · refine tickSlots_issued (fun s member provided => proper.sent s.cobId ?_) now
    rw [← provided]
    exact List.mem_map_of_mem member

theorem issued_timeout : Issued options.nodeId (timeoutFrame options : Effect D) := rfl

theorem issued_response {node : NodeId} (payload : Payload) :
    Issued node (.send .sdo (SdoServer.tsdoFrame node payload) : Effect D) := rfl

theorem tickServices_keeps (proper : (names server).Proper options.nodeId) (now : Int) :
    (tickServices options now server).Yields (Keeps options.nodeId server) := by
  refine yields_bind.mpr (yields_mono (rpdoTick_yields now server.nmtState server.rpdo) fun ticked timeouts due => ?_)
  refine yields_bind.mpr (yields_mono (yields_issues (emitTimeouts_issues issued_timeout ticked.1))
    fun _ emcys emitted => ?_)
  refine yields_bind.mpr (yields_mono (tpdoTick_issued proper now server.nmtState) fun tpdo data sent => ?_)
  refine yields_bind.mpr (yields_mono (yields_issues (drain_issues issued_response server.sdo))
    fun sdo responses drained => ?_)
  have heartbeat : (Producer.tickHeartbeat (D := D) options.nodeId now server.nmtState server.hbProducer).Issues
      (Issued options.nodeId) := by
    refine tickWith_issues ?_ now server.hbProducer
    exact rfl
  have synchronization : (Producer.tickSync (D := D) now server.syncProducer).Issues (Issued options.nodeId) := by
    refine tickWith_issues ?_ now server.syncProducer
    exact rfl
  refine yields_bind.mpr (yields_mono (yields_issues heartbeat) fun hb beats beaten => ?_)
  refine yields_bind.mpr (yields_mono (yields_issues synchronization) fun sync syncs synced => ?_)
  refine yields_bind.mpr (yields_mono (hbTick_yields server.watches) fun watches losses reported => ?_)
  obtain ⟨_, slots, rfl⟩ := due
  obtain ⟨rfl, rfl⟩ := reported
  constructor
  · unfold names
    dsimp only
    rw [sent.1, slots]
    have objects : (tickedSlots now server.nmtState server.rpdo).map RpdoSlot.cobId =
        server.rpdo.map RpdoSlot.cobId := by
      unfold tickedSlots
      split
      · rw [List.map_map]
        refine List.map_congr_left fun s _ => ?_
        simp only [Function.comp_apply]
        split
        · rfl
        · rfl
      · rfl
    have watched : (server.watches.map fun w => if w.due now then { w with timedOut := true } else w).map watchedOf =
        server.watches.map watchedOf := by
      rw [List.map_map]
      refine List.map_congr_left fun w _ => ?_
      simp only [Function.comp_apply]
      split
      · rfl
      · rfl
    rw [objects, watched]
  · have called : ∀ exchange ∈ (dueSlots now server.nmtState server.rpdo).flatMap timeoutCalls,
        Issued options.nodeId exchange.1 := by
      intro exchange member
      obtain ⟨handler, same⟩ := timeoutCalls_effect member
      rw [same]
      trivial
    have lost : ∀ exchange ∈ (server.watches.filter fun w => w.due now).flatMap lostCalls,
        Issued options.nodeId exchange.1 := by
      intro exchange member
      obtain ⟨w, _, called⟩ := List.mem_flatMap.mp member
      obtain ⟨handler, _, called⟩ := List.mem_flatMap.mp called
      rw [List.mem_singleton.mp called]
      trivial
    simp only [List.forall_mem_append]
    exact ⟨called, emitted, sent.2, drained, beaten, synced, lost, nofun⟩

theorem runServer_keeps (proper : (names server).Proper options.nodeId) :
    (runServer options dictionary server).Yields (Keeps options.nodeId server) := by
  refine yields_bind.mpr fun now => ?_
  have dispatched : (dispatchAll options dictionary server.rxQueue { server with rxQueue := [] }).Yields
      (Keeps options.nodeId { server with rxQueue := [] }) := dispatchAll_keeps server.rxQueue _
  refine yields_bind.mpr (yields_mono dispatched fun middle first kept => ?_)
  have same : names middle = names server := kept.1
  refine yields_mono (tickServices_keeps (same ▸ proper) now) fun after second ticked => ?_
  refine ⟨ticked.1.trans same, List.forall_mem_cons.mpr ⟨trivial, ?_⟩⟩
  show ∀ exchange ∈ first ++ second, _
  exact List.forall_mem_append.mpr ⟨kept.2, ticked.2⟩

/-! ## Commands -/

theorem mem_modify {T : Type} {list : List T} {i : ℕ} {update : T → T} {item : T} (member : item ∈ list.modify i update) :
    item ∈ list ∨ ∃ before ∈ list, item = update before := by
  obtain ⟨j, bound, rfl⟩ := List.mem_iff_getElem.mp member
  rw [List.length_modify] at bound
  rw [List.getElem_modify]
  split
  · exact .inr ⟨_, List.getElem_mem bound, rfl⟩
  · exact .inl (List.getElem_mem bound)

/-- What a server with proper names does. -/
def Proceeds (node : NodeId) (after : Server V D) (exchanges : Exchanges D) : Prop :=
  (names after).Proper node ∧ ∀ exchange ∈ exchanges, Issued node exchange.1

theorem keeps_proceeds {node : NodeId} (proper : (names server).Proper node) {after : Server V D} {exchanges : Exchanges D}
    (keeps : Keeps node server after exchanges) : Proceeds node after exchanges := ⟨keeps.1 ▸ proper, keeps.2⟩

theorem setupRpdo_proceeds (proper : (names server).Proper options.nodeId) (i : ℕ)
    (valid : PdoId.predefined.Valid options.rpdoCount i) (cfg : RpdoConfig D) (now : Int) :
    (RpdoConsumer.setup options.nodeId i .predefined cfg now server.rpdo).Yields fun slots exchanges =>
      Proceeds options.nodeId { server with rpdo := slots } exchanges := by
  have named : (names { server with
      rpdo := server.rpdo.modify (i - 1) fun s =>
        { s with
          handler := cfg.handler
          timeout := cfg.timeout
          onTimeout := cfg.onTimeout
          lastRx := now
          timedOut := false
          cobId := some (pdoCobId .rpdo i options.nodeId) } }).Proper options.nodeId := by
    refine ⟨proper.sent, fun id member => ?_, proper.watched⟩
    obtain ⟨s, among, same⟩ := List.mem_map.mp member
    rcases mem_modify among with before | ⟨before, _, rfl⟩
    · exact proper.received id (List.mem_map.mpr ⟨s, before, same⟩)
    · exact ⟨i, valid.1, valid.2.2, (Option.some.inj same).symm⟩
  unfold RpdoConsumer.setup
  dsimp only
  split
  · exact fun _ => ⟨named, List.forall_mem_singleton.mpr trivial⟩
  · exact ⟨named, nofun⟩

theorem setupTpdo_proper (proper : (names server).Proper options.nodeId) (i : ℕ)
    (valid : PdoId.predefined.Valid options.tpdoCount i) (cfg : TpdoConfig D) (now : Int) :
    (names { server with tpdo := TpdoProducer.setup options.nodeId i .predefined cfg now server.tpdo }).Proper
      options.nodeId := by
  refine ⟨fun id member => ?_, proper.received, proper.watched⟩
  obtain ⟨s, among, same⟩ := List.mem_map.mp member
  rcases mem_modify among with before | ⟨before, _, rfl⟩
  · exact proper.sent id (List.mem_map.mpr ⟨s, before, same⟩)
  · exact ⟨i, valid.1, valid.2.2, (Prod.mk.inj same).1.symm⟩

theorem watch_proceeds (proper : (names server).Proper options.nodeId) (remote : NodeId) (timeout : Int)
    (onLost : Option D) (now : Int) :
    (HbConsumer.watch remote timeout onLost now server.watches).Yields fun result exchanges =>
      Proceeds options.nodeId { server with watches := result.2 } exchanges := by
  unfold HbConsumer.watch
  dsimp only
  split
  · rename_i i found
    refine ⟨⟨proper.sent, proper.received, ?_⟩, nofun⟩
    show ∀ pair ∈ List.map watchedOf (server.watches.modify i _), _
    rw [map_modify_same watchedOf]
    · exact proper.watched
    · exact fun _ => rfl
  · split
    · refine fun _ => ⟨⟨proper.sent, proper.received, ?_⟩, List.forall_mem_singleton.mpr trivial⟩
      show ∀ pair ∈ List.map watchedOf (server.watches ++ _), _
      rw [List.map_append]
      exact List.forall_mem_append.mpr ⟨proper.watched, List.forall_mem_singleton.mpr rfl⟩
    · exact ⟨proper, nofun⟩

theorem perform_proceeds (proper : (names server).Proper options.nodeId) (command : Command options D)
    (predefined : Predefined command) :
    (perform options dictionary command server).Yields (Proceeds options.nodeId) := by
  have clocked {after : Server V D} {exchanges : Exchanges D} (now : Int)
      (proceeds : Proceeds options.nodeId after exchanges) :
      Proceeds options.nodeId after (⟨.clock, now⟩ :: exchanges) :=
    ⟨proceeds.1, List.forall_mem_cons.mpr ⟨trivial, proceeds.2⟩⟩
  cases command with
  | receive frame =>
    refine ⟨?_, nofun⟩
    unfold enqueueRx
    split
    · exact proper
    · exact proper
  | run => exact yields_mono (runServer_keeps proper) fun _ _ => keeps_proceeds proper
  | start => exact yields_mono (apply_keeps _ server) fun _ _ => keeps_proceeds proper
  | stop => exact yields_mono (apply_keeps _ server) fun _ _ => keeps_proceeds proper
  | setupRpdo i cobId valid cfg =>
    obtain rfl : cobId = .predefined := predefined
    refine yields_bind.mpr fun now => yields_bind.mpr ?_
    refine yields_mono (setupRpdo_proceeds proper i valid cfg now) fun slots exchanges proceeds => ?_
    exact clocked now ((List.append_nil exchanges).symm ▸ proceeds)
  | setupTpdo i cobId valid cfg =>
    obtain rfl : cobId = .predefined := predefined
    exact fun now => clocked now ⟨setupTpdo_proper proper i valid cfg now, nofun⟩
  | setHeartbeatPeriod period => exact fun now => clocked now ⟨proper, nofun⟩
  | setSyncPeriod period => exact fun now => clocked now ⟨proper, nofun⟩
  | onNmtChange handler => exact ⟨proper, nofun⟩
  | onResetNode handler => exact ⟨proper, nofun⟩
  | onResetCommunication handler => exact ⟨proper, nofun⟩
  | watchHeartbeat remote timeout onLost =>
    refine yields_bind.mpr fun now => yields_bind.mpr ?_
    refine yields_mono (watch_proceeds proper remote timeout onLost now) fun result exchanges proceeds => ?_
    exact clocked now ((List.append_nil exchanges).symm ▸ proceeds)
  | emitEmcy errorCode errorRegister manufacturer =>
    exact fun sent => ⟨proper, List.forall_mem_singleton.mpr rfl⟩

theorem performAll_proceeds (commands : List (Command options D)) (proper : (names server).Proper options.nodeId)
    (predefined : ∀ command ∈ commands, Predefined command) :
    (performAll options dictionary commands server).Yields (Proceeds options.nodeId) := by
  induction commands generalizing server with
  | nil => exact ⟨proper, nofun⟩
  | cons command rest ih =>
    obtain ⟨first, others⟩ := List.forall_mem_cons.mp predefined
    refine yields_bind.mpr (yields_mono (perform_proceeds proper command first) fun middle own proceeds => ?_)
    refine yields_mono (ih proceeds.1 others) fun after later final => ⟨final.1, ?_⟩
    exact List.forall_mem_append.mpr ⟨proceeds.2, final.2⟩

theorem history_proceeds (values : V) (commands : List (Command options D))
    (predefined : ∀ command ∈ commands, Predefined command) :
    (history options dictionary values commands).Yields (Proceeds options.nodeId) := by
  have constructed : (construct (D := D) options values).Yields (Proceeds options.nodeId) := by
    refine fun _ _ now => ⟨⟨fun id member => ?_, fun id member => ?_, nofun⟩, ?_⟩
    · obtain ⟨s, among, same⟩ := List.mem_map.mp member
      rw [(List.mem_replicate.mp among).2] at same
      exact nomatch same
    · obtain ⟨s, among, same⟩ := List.mem_map.mp member
      rw [(List.mem_replicate.mp among).2] at same
      exact nomatch same
    · simp [Issued]
  refine yields_bind.mpr (yields_mono constructed fun start first proceeds => ?_)
  refine yields_mono (performAll_proceeds commands proceeds.1 predefined) fun after later final => ⟨final.1, ?_⟩
  exact List.forall_mem_append.mpr ⟨proceeds.2, final.2⟩

/-! ## Who acts on a frame -/

/-- No frame that a node sends is one of the network management, of the SDO requests or of the
received process data of any node, and only heartbeats are heartbeats. -/
theorem sent_elsewhere {node : NodeId} {id : ℕ} {sender : Sender} (sent : SentWith node id sender) (other : NodeId) :
    id ≠ 0 ∧ id ≠ 0x600 + other.value.toNat ∧ ¬PdoOf .rpdo other id ∧
      (id = peerCobId .heartbeat other → sender = .heartbeat ∧ other = node) := by
  have own := node.valid
  have foreign := other.valid
  have apart : id ≠ 0 ∧ id ≠ 0x600 + other.value.toNat ∧ ¬PdoOf .rpdo other id ∧
      (id = peerCobId .heartbeat other → sender = .heartbeat) := by
    simp only [PdoOf, pdoCobId, peerCobId, cobFunctionCodes]
    cases sender with
    | tpdo =>
      obtain ⟨i, low, high, same⟩ := sent
      simp only [pdoCobId, cobFunctionCodes] at same
      refine ⟨by omega, by omega, ?_, by omega⟩
      rintro ⟨j, _, _, _⟩
      omega
    | sdo =>
      simp only [SentWith, peerCobId, cobFunctionCodes] at sent
      refine ⟨by omega, by omega, ?_, by omega⟩
      rintro ⟨j, _, _, _⟩
      omega
    | heartbeat =>
      simp only [SentWith, peerCobId, cobFunctionCodes] at sent
      refine ⟨by omega, by omega, ?_, fun _ => rfl⟩
      rintro ⟨j, _, _, _⟩
      omega
    | sync =>
      simp only [SentWith, broadcastCobId, cobFunctionCodes] at sent
      refine ⟨by omega, by omega, ?_, by omega⟩
      rintro ⟨j, _, _, _⟩
      omega
    | emcy =>
      simp only [SentWith, peerCobId, cobFunctionCodes] at sent
      refine ⟨by omega, by omega, ?_, by omega⟩
      rintro ⟨j, _, _, _⟩
      omega
  refine ⟨apart.1, apart.2.1, apart.2.2.1, fun heartbeat => ?_⟩
  obtain rfl := apart.2.2.2 heartbeat
  exact ⟨rfl, peerCobId_injective (heartbeat.symm.trans sent)⟩

/-- If a frame that is sent with such an identifier is for a service, then it is a heartbeat. -/
theorem consumer_heartbeat {node receiver : NodeId} {frame : Frame} {sender : Sender} {service : Service}
    (sent : SentWith node frame.id sender) (proper : (names server).Proper receiver)
    (acts : consumer receiver frame server = some service) : sender = .heartbeat ∧ ∃ i, service = .heartbeat i := by
  obtain ⟨nmt, sdo, rpdo, _⟩ := sent_elsewhere sent receiver
  unfold consumer at acts
  rw [if_neg nmt, if_neg sdo] at acts
  split at acts
  · rename_i i found
    obtain ⟨inside, same, _⟩ := List.findIdx?_eq_some_iff_getElem.mp found
    have named : some frame.id ∈ (names server).received :=
      List.mem_map.mpr ⟨_, List.getElem_mem inside, of_decide_eq_true same⟩
    exact absurd (proper.received frame.id named) rpdo
  · obtain ⟨i, found, rfl⟩ := Option.map_eq_some_iff.mp acts
    obtain ⟨inside, same, _⟩ := List.findIdx?_eq_some_iff_getElem.mp found
    have own := proper.watched _ (List.mem_map_of_mem (List.getElem_mem inside))
    have heartbeat : frame.id = peerCobId .heartbeat server.watches[i].remote :=
      (of_decide_eq_true same).symm.trans own
    exact ⟨((sent_elsewhere sent _).2.2.2 heartbeat).1, i, rfl⟩

variable {W : Type}

/-- Two servers with predefined identifiers, or one with itself: of all the frames that one has
tried to send, the other acts on heartbeats alone, and on these only in its watches. -/
theorem servers_act_on_heartbeats (first second : Options) (dictionary : List (ObjectDictionary.OdEntry V))
    (other : List (ObjectDictionary.OdEntry W)) (values : V) (state : W) (commands : List (Command first D))
    (requests : List (Command second D)) (predefined : ∀ command ∈ commands, Predefined command)
    (likewise : ∀ request ∈ requests, Predefined request) :
    (history first dictionary values commands).Yields fun _ exchanges =>
      (history second other state requests).Yields fun receiver _ =>
        ∀ sender frame accepted, ⟨.send sender frame, accepted⟩ ∈ exchanges →
          (dispatchRx second other frame receiver).Yields fun after called =>
            after = { receiver with watches := after.watches } ∧ (sender ≠ .heartbeat → after = receiver) ∧
              ∀ exchange ∈ called, exchange.1 = .clock := by
  refine yields_mono (history_proceeds values commands predefined) fun _ exchanges sending => ?_
  refine yields_mono (history_proceeds state requests likewise) fun receiver _ receiving => ?_
  intro sender frame accepted member
  have sent : SentWith first.nodeId frame.id sender := sending.2 _ member
  refine yields_mono (dispatchRx_yields frame receiver) fun after called dispatches => ?_
  have consumes := dispatches_consumes dispatches
  unfold Consumes at consumes
  cases acts : consumer second.nodeId frame receiver with
  | none =>
    rw [acts] at consumes
    obtain ⟨rfl, quiet⟩ := consumes
    exact ⟨rfl, fun _ => rfl, quiet⟩
  | some service =>
    obtain ⟨rfl, i, rfl⟩ := consumer_heartbeat sent receiving.1 acts
    rw [acts] at consumes
    exact ⟨consumes.1, fun different => absurd rfl different, consumes.2.2⟩

theorem first_object : PdoId.predefined.Valid 4 1 := by
  unfold PdoId.Valid
  decide

/-- Node 5 sends an object and heartbeats, and node 6 receives an object and watches node 5. -/
theorem servers_act_on_heartbeats_testing :
    (history { nodeId := NodeId.five } ([] : List (ObjectDictionary.OdEntry Unit)) ()
      [.setupTpdo 1 .predefined first_object ⟨some (), 10⟩, .setHeartbeatPeriod 100, .start, .run]).Yields
      fun _ exchanges =>
        (history { nodeId := NodeId.six } ([] : List (ObjectDictionary.OdEntry Unit)) ()
          [.setupRpdo 1 .predefined first_object ⟨some (), 0, none⟩, .watchHeartbeat NodeId.five 250 (some ())]).Yields
          fun receiver _ => ∀ sender frame accepted, ⟨.send sender frame, accepted⟩ ∈ exchanges →
            (dispatchRx { nodeId := NodeId.six } [] frame receiver).Yields fun after called =>
              after = { receiver with watches := after.watches } ∧ (sender ≠ .heartbeat → after = receiver) ∧
                ∀ exchange ∈ called, exchange.1 = .clock :=
  servers_act_on_heartbeats { nodeId := NodeId.five } { nodeId := NodeId.six } [] [] () () _ _
    (by simp [Predefined]) (by simp [Predefined])

end Emblib.CobIdSeparation
