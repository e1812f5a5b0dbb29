import Emblib.CanopenServer

/-! What each member function of the CANopen server does, whatever the clock, the bus and the
delegates reply: the state that it leaves, and the requests that it has made. -/
namespace Emblib.CanopenDispatch
open Programs Watchdogs Can CanopenServices CanopenServer

variable {V D : Type} {options : Options} {dictionary : List (ObjectDictionary.OdEntry V)} {server : Server V D}

abbrev Exchanges (D : Type) := List (Sigma (Reply (D := D)))

/-! ## States of the network management -/

/-- The server after a change of state at this time. -/
def entered (s : NmtState) (now : Int) (server : Server V D) : Server V D :=
  { server with
    nmtState := s
    rpdo := if s = .operational then RpdoConsumer.resetTimers now server.rpdo else server.rpdo }

/-- The exchanges of a change of state at this time. -/
def announced (s : NmtState) (now : Int) (server : Server V D) : Exchanges D :=
  ⟨.clock, now⟩ :: server.onNmtChange.toList.flatMap fun handler => [⟨.nmtChange handler s, ()⟩]

/-- A state that the server is in already is not applied again. -/
theorem applyNmtState_yields (s : NmtState) (server : Server V D) :
    (applyNmtState s server).Yields fun after exchanges =>
      s = server.nmtState ∧ after = server ∧ exchanges = [] ∨
        s ≠ server.nmtState ∧ ∃ now, after = entered s now server ∧ exchanges = announced s now server := by
  unfold applyNmtState
  split
  · rename_i same
    exact .inl ⟨same, rfl, rfl⟩
  · rename_i different
    refine yields_bind.mpr fun now => ?_
    have called := callIf_yields (nmtChange s) (fun handler => [⟨.nmtChange handler s, ()⟩]) (fun _ _ => rfl)
      server.onNmtChange
    refine yields_bind.mpr (yields_mono called fun _ exchanges same => ?_)
    exact .inr ⟨different, now, rfl, by rw [List.append_nil, same]; rfl⟩

/-- The state that a command leads to. -/
def target : NmtCommand → NmtState
  | .start => .operational
  | .stop => .stopped
  | .enterPreOperational => .preOperational
  | .resetNode => .preOperational
  | .resetCommunication => .preOperational

/-- The handler that a command calls first. -/
def resetHandler (server : Server V D) : NmtCommand → Option D
  | .resetNode => server.onResetNode
  | .resetCommunication => server.onResetCommunication
  | _ => none

/-- A command: its reset handler, if it has one, and then its state. -/
def obey (command : NmtCommand) (server : Server V D) : Task D (Server V D) := do
  Program.callIf (resetHandler server command) reset
  applyNmtState (target command) server

theorem handleNmtCommand_eq (frame : Frame) (server : Server V D) : handleNmtCommand options frame server =
    match nmtDecode options.nodeId frame with
    | none => Program.pure server
    | some command => obey command server := by
  unfold handleNmtCommand
  cases nmtDecode options.nodeId frame with
  | none => rfl
  | some command =>
    cases command with
    | start => rfl
    | stop => rfl
    | enterPreOperational => rfl
    | resetNode => rfl
    | resetCommunication => rfl

/-- The exchanges of a command before its state is applied. -/
def resets (command : NmtCommand) (server : Server V D) : Exchanges D :=
  (resetHandler server command).toList.flatMap fun handler => [⟨.reset handler, ()⟩]

theorem obey_yields (command : NmtCommand) (server : Server V D) :
    (obey command server).Yields fun after exchanges =>
      target command = server.nmtState ∧ after = server ∧ exchanges = resets command server ∨
        target command ≠ server.nmtState ∧ ∃ now, after = entered (target command) now server ∧
          exchanges = resets command server ++ announced (target command) now server := by
  have called := callIf_yields reset (fun handler => [⟨.reset handler, ()⟩]) (fun _ _ => rfl)
    (resetHandler server command)
  refine yields_bind.mpr (yields_mono called fun _ first same => ?_)
  refine yields_mono (applyNmtState_yields (target command) server) fun after second outcome => ?_
  rw [same]
  obtain ⟨already, unchanged, nothing⟩ | ⟨different, now, changed, announced⟩ := outcome
  · exact .inl ⟨already, unchanged, by rw [nothing, List.append_nil]; rfl⟩
  · exact .inr ⟨different, now, changed, by rw [announced]; rfl⟩

/-! ## Process data and heartbeats -/

/-- The server after a frame to the object in this slot, received at this time. -/
def received (i : ℕ) (now : Int) (server : Server V D) : Server V D :=
  { server with rpdo := server.rpdo.modify i fun s => { s with lastRx := now, timedOut := false } }

/-- The server after a heartbeat to this watch, received at this time. -/
def heard (i : ℕ) (now : Int) (server : Server V D) : Server V D :=
  { server with watches := server.watches.modify i fun w => { w with lastRx := now, timedOut := false } }

/-- The exchanges with the handler of the object in this slot. -/
def handled (i : ℕ) (payload : Payload) (server : Server V D) : Exchanges D :=
  (server.rpdo[i]?.bind (·.handler)).toList.flatMap fun handler => [⟨.receive handler payload, ()⟩]

/-- A frame that is for an object is received in the operational state only. -/
theorem rpdoHandle_yields (frame : Frame) (now : Int) (state : NmtState) (slots : List (RpdoSlot D)) :
    (RpdoConsumer.tryHandle frame now state slots).Yields fun result exchanges =>
      match RpdoConsumer.slotOf frame slots with
      | none => result = (false, slots) ∧ exchanges = []
      | some i =>
        state ≠ .operational ∧ result = (true, slots) ∧ exchanges = [] ∨
          state = .operational ∧ result = (true, slots.modify i fun s => { s with lastRx := now, timedOut := false }) ∧
            exchanges = (slots[i]?.bind (·.handler)).toList.flatMap fun handler => [⟨.receive handler frame.payload, ()⟩] := by
  unfold RpdoConsumer.tryHandle
  cases RpdoConsumer.slotOf frame slots with
  | none => exact ⟨rfl, rfl⟩
  | some i =>
    dsimp only
    by_cases operational : state = .operational
    · rw [if_neg (not_not.mpr operational)]
      have called := callIf_yields (receive frame.payload) (fun handler => [⟨.receive handler frame.payload, ()⟩])
        (fun _ _ => rfl) (slots[i]?.bind (·.handler))
      refine yields_bind.mpr (yields_mono called fun _ exchanges same => ?_)
      exact .inr ⟨operational, rfl, by rw [List.append_nil, same]⟩
    · rw [if_pos operational]
      exact .inl ⟨operational, rfl, rfl⟩

/-- A frame that is neither for the network management nor for SDO is for the first object
with its identifier, or else for the first watch. -/
inductive Processes (frame : Frame) (now : Int) (server : Server V D) :
    Server V D → Exchanges D → Prop where
  | ignored (slot : RpdoConsumer.slotOf frame server.rpdo = some i) (state : server.nmtState ≠ .operational) :
      Processes frame now server server []
  | received (slot : RpdoConsumer.slotOf frame server.rpdo = some i) (state : server.nmtState = .operational) :
      Processes frame now server (received i now server) (handled i frame.payload server)
  | heard (absent : RpdoConsumer.slotOf frame server.rpdo = none)
      (slot : HbConsumer.slotOf frame server.watches = some i) : Processes frame now server (heard i now server) []
  | unknown (absent : RpdoConsumer.slotOf frame server.rpdo = none)
      (silent : HbConsumer.slotOf frame server.watches = none) : Processes frame now server server []

theorem dispatchProcess_yields (frame : Frame) (server : Server V D) :
    (dispatchProcess frame server).Yields fun after exchanges =>
      ∃ now called, exchanges = ⟨.clock, now⟩ :: called ∧ Processes frame now server after called := by
  unfold dispatchProcess
  refine yields_bind.mpr fun now => yields_bind.mpr ?_
  refine yields_mono (rpdoHandle_yields frame now server.nmtState server.rpdo) fun result called outcome => ?_
  cases slot : RpdoConsumer.slotOf frame server.rpdo with
  | none =>
    rw [slot] at outcome
    obtain ⟨rfl, rfl⟩ := outcome
    refine ⟨now, [], rfl, ?_⟩
    simp only [HbConsumer.tryHandle]
    cases watch : HbConsumer.slotOf frame server.watches with
    | none => exact .unknown slot watch
    | some i => exact .heard slot watch
  | some i =>
    rw [slot] at outcome
    obtain ⟨state, rfl, rfl⟩ | ⟨state, rfl, rfl⟩ := outcome
    · exact ⟨now, [], rfl, .ignored slot state⟩
    · exact ⟨now, handled i frame.payload server, by simp [handled], .received slot state⟩

/-! ## One frame -/

/-- What the dispatch of a frame can do: each service decides by the identifier alone, in the
order NMT, SDO, process data, heartbeat. -/
inductive Dispatches (options : Options) (dictionary : List (ObjectDictionary.OdEntry V)) (frame : Frame)
    (server : Server V D) : Server V D → Exchanges D → Prop where
  | unknown (nmt : nmtMatch frame = true) (decoded : nmtDecode options.nodeId frame = none) :
      Dispatches options dictionary frame server server []
  | stays (nmt : nmtMatch frame = true) (decoded : nmtDecode options.nodeId frame = some command)
      (same : target command = server.nmtState) :
      Dispatches options dictionary frame server server (resets command server)
  | enters (nmt : nmtMatch frame = true) (decoded : nmtDecode options.nodeId frame = some command)
      (different : target command ≠ server.nmtState) (now : Int) :
      Dispatches options dictionary frame server (entered (target command) now server)
        (resets command server ++ announced (target command) now server)
  | request (other : nmtMatch frame = false) (sdo : frame.id = SdoServer.rsdoCobId options.nodeId) :
      Dispatches options dictionary frame server
        { server with sdo := (SdoServer.tryHandle options.nodeId dictionary frame server.sdo).2 } []
  | process (other : nmtMatch frame = false) (process : frame.id ≠ SdoServer.rsdoCobId options.nodeId) (now : Int)
      (processes : Processes frame now server after called) :
      Dispatches options dictionary frame server after (⟨.clock, now⟩ :: called)

theorem tryHandle_claims (options : Options) (dictionary : List (ObjectDictionary.OdEntry V))
    (frame : Frame)
    (sdo : SdoServer.Server V) : (SdoServer.tryHandle options.nodeId dictionary frame sdo).1 = true ↔
      frame.id = SdoServer.rsdoCobId options.nodeId := by
  unfold SdoServer.tryHandle
  by_cases addressed : frame.id = SdoServer.rsdoCobId options.nodeId
  · rw [if_neg (not_not.mpr addressed)]
    dsimp only
    split
    · exact iff_of_true rfl addressed
    · exact iff_of_true rfl addressed
  · rw [if_pos addressed]
    exact iff_of_false Bool.false_ne_true addressed

theorem dispatchRx_yields (frame : Frame) (server : Server V D) :
    (dispatchRx options dictionary frame server).Yields (Dispatches options dictionary frame server) := by
  unfold dispatchRx
  cases nmt : nmtMatch frame with
  | true =>
    rw [if_pos rfl, handleNmtCommand_eq]
    cases decoded : nmtDecode options.nodeId frame with
    | none => exact .unknown nmt decoded
    | some command =>
      refine yields_mono (obey_yields command server) fun after exchanges outcome => ?_
      obtain ⟨same, rfl, rfl⟩ | ⟨different, now, rfl, rfl⟩ := outcome
      · exact .stays nmt decoded same
      · exact .enters nmt decoded different now
  | false =>
    rw [if_neg Bool.false_ne_true]
    have claims := tryHandle_claims options dictionary frame server.sdo
    have ignored := @SdoServer.tryHandle_ignored _ options.nodeId dictionary frame server.sdo
    have request : frame.id = SdoServer.rsdoCobId options.nodeId → Dispatches options dictionary frame server
        { server with sdo := (SdoServer.tryHandle options.nodeId dictionary frame server.sdo).2 } [] := .request nmt
    generalize SdoServer.tryHandle options.nodeId dictionary frame server.sdo = outcome at *
    obtain ⟨handled, sdo⟩ := outcome
    cases handled with
    | true => exact request (claims.mp rfl)
    | false =>
      have other : frame.id ≠ SdoServer.rsdoCobId options.nodeId :=
        fun same => Bool.false_ne_true (claims.mpr same)
      obtain rfl : sdo = server.sdo := ignored fun answered => other answered.1
      refine yields_mono (dispatchProcess_yields frame server) fun after exchanges outcome => ?_
      obtain ⟨now, called, rfl, processes⟩ := outcome
      exact .process nmt other now processes

/-- What the dispatch of a frame asks for: the clock and the delegates of the application. -/
def Answers : Effect D → Prop
  | .clock => True
  | .reset _ => True
  | .nmtChange .. => True
  | .receive .. => True
  | _ => False

theorem dispatches_answers {frame : Frame} {after : Server V D} {exchanges : Exchanges D}
    (dispatches : Dispatches options dictionary frame server after exchanges) :
    ∀ exchange ∈ exchanges, Answers exchange.1 := by
  have resets (command : NmtCommand) : ∀ exchange ∈ resets command server, Answers exchange.1 := by
    unfold CanopenDispatch.resets
    cases resetHandler server command with
    | none => exact nofun
    | some handler => simp [Answers]
  have announced (s : NmtState) (now : Int) : ∀ exchange ∈ announced s now server, Answers exchange.1 := by
    unfold CanopenDispatch.announced
    cases server.onNmtChange with
    | none => simp [Answers]
    | some handler => simp [Answers]
  have handled (i : ℕ) : ∀ exchange ∈ handled i frame.payload server, Answers exchange.1 := by
    unfold CanopenDispatch.handled
    cases server.rpdo[i]?.bind (·.handler) with
    | none => exact nofun
    | some handler => simp [Answers]
  cases dispatches with
  | unknown nmt decoded => exact nofun
  | stays nmt decoded same => exact resets _
  | enters nmt decoded different now => exact List.forall_mem_append.mpr ⟨resets _, announced _ now⟩
  | request other sdo => exact nofun
  | process other process now processes =>
    refine List.forall_mem_cons.mpr ⟨trivial, ?_⟩
    cases processes with
    | ignored slot state => exact nofun
    | received slot state => exact handled _
    | heard absent slot => exact nofun
    | unknown absent silent => exact nofun

/-! ## One tick -/

/-- The exchanges with the timeout handler of an object. -/
def timeoutCalls (s : RpdoSlot D) : Exchanges D :=
  s.onTimeout.toList.flatMap fun handler => [⟨.timeout handler, ()⟩]

theorem timeoutCalls_effect {slots : List (RpdoSlot D)} {exchange : Sigma (Reply (D := D))}
    (member : exchange ∈ slots.flatMap timeoutCalls) : ∃ handler, exchange.1 = .timeout handler := by
  obtain ⟨s, _, called⟩ := List.mem_flatMap.mp member
  unfold timeoutCalls at called
  obtain ⟨handler, _, called⟩ := List.mem_flatMap.mp called
  rw [List.mem_singleton.mp called]
  exact ⟨handler, rfl⟩

/-- The objects whose silence is reported at this time. -/
def dueSlots (now : Int) (state : NmtState) (slots : List (RpdoSlot D)) : List (RpdoSlot D) :=
  if state = .operational then slots.filter fun s => s.due now else []

/-- The objects after a tick at this time. -/
def tickedSlots (now : Int) (state : NmtState) (slots : List (RpdoSlot D)) : List (RpdoSlot D) :=
  if state = .operational then slots.map fun s => if s.due now then { s with timedOut := true } else s else slots

theorem rpdoTick_yields (now : Int) (state : NmtState) (slots : List (RpdoSlot D)) :
    (RpdoConsumer.tick now state slots).Yields fun result exchanges =>
      result.1 = (dueSlots now state slots).length ∧ result.2 = tickedSlots now state slots ∧
        exchanges = (dueSlots now state slots).flatMap timeoutCalls := by
  unfold RpdoConsumer.tick dueSlots tickedSlots
  by_cases operational : state = .operational
  · rw [if_neg (not_not.mpr operational), if_pos operational, if_pos operational]
    have calling : ∀ s : RpdoSlot D, (Program.callIf s.onTimeout timeout).Yields fun _ exchanges => exchanges = timeoutCalls s :=
      fun s => callIf_yields timeout (fun handler => [⟨.timeout handler, ()⟩]) (fun _ _ => rfl) s.onTimeout
    refine yields_mono (tickAll_yields calling slots) fun result exchanges holds => ?_
    rwa [List.countP_eq_length_filter] at holds
  · rw [if_pos operational, if_neg operational, if_neg operational]
    exact ⟨rfl, rfl, rfl⟩

/-- The EMCY frame of a timeout. -/
def timeoutFrame (options : Options) : Effect D :=
  .send .emcy (emcyFrame options.nodeId 0x8250 0x10 (0, 0, 0, 0, 0))

theorem emitTimeouts_yields (count : ℕ) : (emitTimeouts (D := D) options count).Yields fun _ exchanges =>
    exchanges.map (·.1) = List.replicate count (timeoutFrame options) := by
  induction count with
  | zero => rfl
  | succ count ih =>
    refine yields_bind.mpr fun sent => ?_
    show (emitTimeouts options count).Yields _
    exact yields_mono ih fun _ exchanges same => congrArg (timeoutFrame options :: ·) same

/-- What the services do in a tick behind process data that are received. -/
def Later (state : NmtState) : Effect D → Prop
  | .send sender _ => sender ≠ .emcy ∧ (state ≠ .operational → sender ≠ .tpdo)
  | .provide _ => state = .operational
  | .lost .. => True
  | _ => False

variable {now : Int} {state : NmtState}

theorem tpdoTick_issues (slots : List (TpdoSlot D)) :
    (TpdoProducer.tick now state slots).Issues (Later state) := by
  unfold TpdoProducer.tick
  by_cases operational : state = .operational
  · rw [if_neg (not_not.mpr operational)]
    induction slots with
    | nil => trivial
    | cons s rest ih =>
      refine Program.issues_bind ?_ fun _ => Program.issues_bind ih fun _ => trivial
      unfold TpdoProducer.tickSlot
      cases s.provider with
      | none => trivial
      | some provider =>
        dsimp only
        split
        · trivial
        · split
          · trivial
          · exact ⟨operational, fun payload => ⟨⟨nofun, fun other => absurd operational other⟩, fun _ => trivial⟩⟩
  · rw [if_pos operational]
    trivial

/-- A drain sends responses, and asks for nothing else. -/
theorem drain_issues {allowed : Effect D → Prop} {node : NodeId}
    (responds : ∀ payload, allowed (.send .sdo (SdoServer.tsdoFrame node payload))) (sdo : SdoServer.Server V) :
    (SdoServer.drain node (send (D := D) .sdo) sdo).Issues allowed := by
  unfold SdoServer.drain
  generalize sdo.queue.size = fuel
  induction fuel generalizing sdo with
  | zero => trivial
  | succ fuel ih =>
    unfold SdoServer.drainLoop
    split
    · trivial
    · refine ⟨responds _, fun sent => ?_⟩
      cases sent with
      | false => trivial
      | true => exact ih _

theorem tickWith_issues {allowed : Effect D → Prop} {sender : Sender} {frame : Frame}
    (sends : allowed (.send sender frame)) (now : Int) (producer : Producer) :
    (Producer.tickWith sender frame now producer).Issues allowed := by
  unfold Producer.tickWith
  split
  · trivial
  · split
    · trivial
    · exact ⟨sends, fun _ => trivial⟩

theorem emitTimeouts_issues {allowed : Effect D → Prop} (emits : allowed (timeoutFrame options)) (count : ℕ) :
    (emitTimeouts options count).Issues allowed := by
  induction count with
  | zero => trivial
  | succ count ih => exact ⟨emits, fun _ => ih⟩

theorem later_sends {sender : Sender} (other : sender ≠ .emcy ∧ sender ≠ .tpdo) (frame : Frame) :
    Later state (.send sender frame : Effect D) :=
  ⟨other.1, fun _ => other.2⟩

/-- The exchanges with the handler of a lost node. -/
def lostCalls (w : WatchSlot D) : Exchanges D :=
  w.onLost.toList.flatMap fun handler => [⟨.lost handler w.remote, ()⟩]

theorem hbTick_yields (watches : List (WatchSlot D)) : (HbConsumer.tick now watches).Yields fun after exchanges =>
    after = (watches.map fun w => if w.due now then { w with timedOut := true } else w) ∧
      exchanges = (watches.filter fun w => w.due now).flatMap lostCalls := by
  have calling : ∀ w : WatchSlot D, (Program.callIf w.onLost (lost w.remote)).Yields fun _ exchanges => exchanges = lostCalls w :=
    fun w => callIf_yields (lost w.remote) (fun handler => [⟨.lost handler w.remote, ()⟩]) (fun _ _ => rfl) w.onLost
  refine yields_bind.mpr (yields_mono (tickAll_yields calling watches) fun result exchanges holds => ?_)
  obtain ⟨_, list, called⟩ := holds
  exact ⟨list, by rw [List.append_nil, called]⟩

theorem hbTick_issues (watches : List (WatchSlot D)) :
    (HbConsumer.tick now watches).Issues (Later state) := by
  refine Program.issues_bind ?_ fun _ => trivial
  induction watches with
  | nil => trivial
  | cons w rest ih =>
    unfold tickAll
    split
    · exact Program.issues_bind ih fun _ => trivial
    · split
      · refine Program.issues_bind ?_ fun _ => Program.issues_bind ih fun _ => trivial
        cases w.onLost with
        | none => trivial
        | some handler => exact ⟨trivial, fun _ => trivial⟩
      · exact Program.issues_bind ih fun _ => trivial

/-- What a run does with the process data that it sends, the queue of SDO, the producers and
the watches. -/
def tickRest (options : Options) (now : Int) (server : Server V D) (rpdo : List (RpdoSlot D)) :
    Task D (Server V D) := do
  let tpdo ← TpdoProducer.tick now server.nmtState server.tpdo
  let sdo ← SdoServer.drain options.nodeId (send .sdo) server.sdo
  let hbProducer ← Producer.tickHeartbeat options.nodeId now server.nmtState server.hbProducer
  let syncProducer ← Producer.tickSync now server.syncProducer
  let watches ← HbConsumer.tick now server.watches
  return { server with
    rpdo := rpdo
    tpdo := tpdo
    sdo := sdo
    hbProducer := hbProducer
    syncProducer := syncProducer
    watches := watches }

theorem tickRest_issues (options : Options) (now : Int) (server : Server V D) (rpdo : List (RpdoSlot D)) :
    (tickRest options now server rpdo).Issues (Later server.nmtState) := by
  refine Program.issues_bind (tpdoTick_issues server.tpdo) fun _ => ?_
  refine Program.issues_bind (drain_issues (fun _ => later_sends (by decide) _) server.sdo) fun _ => ?_
  refine Program.issues_bind (tickWith_issues (later_sends (by decide) _) now server.hbProducer) fun _ => ?_
  refine Program.issues_bind (tickWith_issues (later_sends (by decide) _) now server.syncProducer) fun _ => ?_
  exact Program.issues_bind (hbTick_issues server.watches) fun _ => trivial

/-- What a tick leaves of a server, which has these objects after it. -/
structure Ticked (server after : Server V D) (rpdo : List (RpdoSlot D)) : Prop where
  nmtState : after.nmtState = server.nmtState
  rxQueue : after.rxQueue = server.rxQueue
  onNmtChange : after.onNmtChange = server.onNmtChange
  rpdo : after.rpdo = rpdo

theorem tickRest_ticked (options : Options) (now : Int) (server : Server V D) (rpdo : List (RpdoSlot D)) :
    (tickRest options now server rpdo).Yields fun after _ => Ticked server after rpdo := by
  refine yields_bind.mpr (yields_mono (yields_trivial _) fun _ _ _ => ?_)
  refine yields_bind.mpr (yields_mono (yields_trivial _) fun _ _ _ => ?_)
  refine yields_bind.mpr (yields_mono (yields_trivial _) fun _ _ _ => ?_)
  refine yields_bind.mpr (yields_mono (yields_trivial _) fun _ _ _ => ?_)
  exact yields_bind.mpr (yields_mono (yields_trivial _) fun _ _ _ => ⟨rfl, rfl, rfl, rfl⟩)

/-- In a tick the timeouts come first, then an EMCY frame for each, then the rest. -/
structure Ticks (options : Options) (now : Int) (server after : Server V D)
    (emcys rest : Exchanges D) : Prop where
  ticked : Ticked server after (tickedSlots now server.nmtState server.rpdo)
  emcys : emcys.map (·.1) = List.replicate (dueSlots now server.nmtState server.rpdo).length (timeoutFrame options)
  rest : ∀ exchange ∈ rest, Later server.nmtState exchange.1

theorem tickServices_yields (now : Int) (server : Server V D) :
    (tickServices options now server).Yields fun after exchanges =>
      ∃ emcys rest, exchanges = (dueSlots now server.nmtState server.rpdo).flatMap timeoutCalls ++ (emcys ++ rest) ∧
        Ticks options now server after emcys rest := by
  refine yields_bind.mpr (yields_mono (rpdoTick_yields now server.nmtState server.rpdo) fun ticked timeouts holds => ?_)
  obtain ⟨count, rpdo⟩ := ticked
  obtain ⟨counted, slots, called⟩ := holds
  refine yields_bind.mpr (yields_mono (emitTimeouts_yields count) fun _ emcys emitted => ?_)
  have rest := yields_and (tickRest_ticked options now server rpdo)
    (yields_issues (tickRest_issues options now server rpdo))
  refine yields_mono rest fun after rest holds => ⟨emcys, rest, by rw [called], ?_, ?_, holds.2⟩
  · exact slots ▸ holds.1
  · exact counted ▸ emitted

end Emblib.CanopenDispatch
