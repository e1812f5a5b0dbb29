import Emblib.Library.Account
import Emblib.Library.Channel
import Emblib.CanopenDispatch

/-! The producers of a CANopen server keep their periods. What the process data, the heartbeat
and SYNC have sent is told by the commands and by the exchanges of the server alone; the
times that the producers remember are not needed for that. -/
namespace Emblib.PacedProducers
open Programs Runs Accounts Pacers Can CanopenServices CanopenServer CanopenDispatch

variable {V D : Type} {options : Options} {dictionary : List (ObjectDictionary.OdEntry V)}

/-! ## What is told -/

def tpdoFrame (cobId : ℕ) (payload : Payload) : Frame where
  format := .standard
  id := cobId
  len := 8
  payload := payload

/-- A transmitted object asks for its payload and offers it with its identifier. -/
def tpdoLine (D : Type) : Line (Effect D) Reply ℕ D Payload where
  offer cobId provider := do
    let payload ← Program.perform (E := Effect D) (.provide provider)
    return (payload, ← send .tpdo (tpdoFrame cobId payload))
  exchanges cobId provider offered :=
    [⟨.provide provider, offered.1⟩, ⟨.send .tpdo (tpdoFrame cobId offered.1), offered.2⟩]
  exact _ _ _ _ := rfl

/-- The transmitted objects by their identifiers. -/
structure Channels (D : Type) where
  tpdo : List (Channel ℕ D)
  heartbeat : Emission := {}
  sync : Emission := {}

def sends (sender : Sender) (frame : Frame) (outcome : Outcome) : Exchanges D :=
  outcome.toList.map fun sent => ⟨.send sender frame, sent⟩

theorem size_payload (first : Byte) : #[first, 0, 0, 0, 0, 0, 0, 0].size = 8 := rfl

/-- A payload of which one byte is given. -/
def payloadOf (first : Byte) : Payload := ⟨#[first, 0, 0, 0, 0, 0, 0, 0], size_payload first⟩

def heartbeatFrame (node : NodeId) (state : NmtState) : Frame where
  format := .standard
  id := 0x700 + node.value.toNat
  len := 1
  payload := payloadOf state.toUnderlying

def syncFrame : Frame where
  format := .standard
  id := 0x80
  len := 0
  payload := payloadOf 0

/-- A request of one of these producers. -/
def IsProduced : Effect D → Bool
  | .send .tpdo _ => true
  | .send .heartbeat _ => true
  | .send .sync _ => true
  | .provide _ => true
  | _ => false

def produced (exchanges : Exchanges D) : Exchanges D := exchanges.filter fun exchange => IsProduced exchange.1

/-- The command is one that the producers hear of. -/
def Concerns : Command options D → Prop
  | .run => True
  | .setupTpdo .. => True
  | .setHeartbeatPeriod _ => True
  | .setSyncPeriod _ => True
  | _ => False

/-- How the channels go on with a command that has these exchanges and leads to this state. A
run offers at most one frame for each object, in the operational state only, then at most one
heartbeat with the state, and then at most one SYNC. -/
inductive Tells (state : NmtState) (channels : Channels D) :
    Command options D → Exchanges D → Channels D → Prop where
  | run (now : Int) (offers : List (Offer Payload)) (heartbeat sync : Outcome)
      (complete : offers.length = channels.tpdo.length)
      (told : produced rest =
        (if state = .operational then exchangesOf (tpdoLine D) channels.tpdo offers else []) ++
          (sends .heartbeat (heartbeatFrame options.nodeId state) heartbeat ++ sends .sync syncFrame sync)) :
      Tells state channels .run (⟨.clock, now⟩ :: rest)
        { tpdo := if state = .operational then tickedAll now channels.tpdo offers else channels.tpdo
          heartbeat := channels.heartbeat.after (.tick now heartbeat)
          sync := channels.sync.after (.tick now sync) }
  | setupTpdo (now : Int) :
      Tells state channels (.setupTpdo i cobId valid cfg) [⟨.clock, now⟩]
        { channels with
          tpdo := channels.tpdo.modify (i - 1) fun _ =>
            .configured (cobId.resolve .tpdo i options.nodeId) cfg.provider cfg.period now }
  | setHeartbeatPeriod (now : Int) :
      Tells state channels (.setHeartbeatPeriod period) [⟨.clock, now⟩]
        { channels with heartbeat := channels.heartbeat.after (.restart period now) }
  | setSyncPeriod (now : Int) :
      Tells state channels (.setSyncPeriod period) [⟨.clock, now⟩]
        { channels with sync := channels.sync.after (.restart period now) }
  | other (others : ¬Concerns command) (silent : produced exchanges = []) :
      Tells state channels command exchanges channels

/-- A step of a server, with what it tells about the channels. -/
def Follows (options : Options) (dictionary : List (ObjectDictionary.OdEntry V)) :
    Server V D × Channels D → Command options D × Exchanges D → Server V D × Channels D → Prop :=
  Accounted (perform options dictionary) fun after => Tells after.nmtState

def Channels.initial (options : Options) : Channels D where
  tpdo := List.replicate options.tpdoCount { address := 0 }

def slotOf (s : TpdoSlot D) : Slot ℕ D := ⟨s.cobId, s.provider, s.period, s.lastTx⟩

structure Paced (producer : Producer) (emission : Emission) : Prop where
  knows : Knows ⟨producer.period, producer.lastTx⟩ emission
  keeps : emission.Keeps

structure Represents (server : Server V D) (channels : Channels D) : Prop where
  tpdo : List.Forall₂ (fun s => Shows (slotOf s)) server.tpdo channels.tpdo
  heartbeat : Paced server.hbProducer channels.heartbeat
  sync : Paced server.syncProducer channels.sync

variable {server : Server V D} {channels : Channels D} {now : Int}

theorem produced_append (first second : Exchanges D) :
    produced (first ++ second) = produced first ++ produced second := List.filter_append ..

theorem produced_none {exchanges : Exchanges D} (none : ∀ exchange ∈ exchanges, IsProduced exchange.1 = false) :
    produced exchanges = [] := by
  refine List.filter_eq_nil_iff.mpr fun exchange member => ?_
  rw [none exchange member]
  exact Bool.false_ne_true

theorem produced_all {exchanges : Exchanges D} (all : ∀ exchange ∈ exchanges, IsProduced exchange.1 = true) :
    produced exchanges = exchanges := List.filter_eq_self.mpr all

theorem sends_produced {sender : Sender} (one : sender = .heartbeat ∨ sender = .sync) (frame : Frame)
    (outcome : Outcome) : produced (sends (D := D) sender frame outcome) = sends sender frame outcome := by
  refine produced_all fun exchange member => ?_
  obtain ⟨sent, _, rfl⟩ := List.mem_map.mp member
  rcases one with rfl | rfl
  · rfl
  · rfl

theorem channel_produced (channel : Channel ℕ D) (offer : Offer Payload) :
    produced (channel.exchanges (tpdoLine D) offer) = channel.exchanges (tpdoLine D) offer := by
  refine produced_all fun exchange member => ?_
  cases offer with
  | none => exact nomatch member
  | some offered =>
    obtain ⟨provider, _, member⟩ := List.mem_flatMap.mp member
    rcases List.mem_cons.mp member with rfl | member
    · rfl
    · rw [List.mem_singleton.mp member]
      rfl

theorem channels_produced (channels : List (Channel ℕ D)) (offers : List (Offer Payload)) :
    produced (exchangesOf (tpdoLine D) channels offers) = exchangesOf (tpdoLine D) channels offers := by
  induction channels generalizing offers with
  | nil => rfl
  | cons channel rest ih =>
    cases offers with
    | nil => rfl
    | cons offer offers =>
      rw [exchangesOf_cons, produced_append, channel_produced, ih]

/-! ## One tick of one producer -/

def noted (now : Int) (s : TpdoSlot D) (sent : Bool) : TpdoSlot D := if sent then { s with lastTx := now } else s

theorem slotOf_noted (now : Int) (s : TpdoSlot D) (sent : Bool) :
    slotOf (noted now s sent) = (slotOf s).ticked now sent := by
  cases sent <;> rfl

theorem tickSlot_eq (now : Int) (s : TpdoSlot D) :
    TpdoProducer.tickSlot now s = do return noted now s (← (slotOf s).tick (tpdoLine D) now) := by
  obtain ⟨cobId, provider, period, lastTx⟩ := s
  unfold TpdoProducer.tickSlot Slot.tick slotOf
  cases provider with
  | none => rfl
  | some provider =>
    dsimp only
    split
    · rfl
    · split
      · rfl
      · rfl

theorem tickSlots_yields {slots : List (TpdoSlot D)} {channels : List (Channel ℕ D)}
    (shows : List.Forall₂ (fun s => Shows (slotOf s)) slots channels) (now : Int) :
    (TpdoProducer.tickSlots now slots).Yields fun after exchanges =>
      ∃ offers : List (Offer Payload), offers.length = channels.length ∧
        exchanges = exchangesOf (tpdoLine D) channels offers ∧
        List.Forall₂ (fun s => Shows (slotOf s)) after (tickedAll now channels offers) := by
  refine ticks_yields (slotOf_noted now) (tickSlot_eq now) ?_ ?_ shows
  · rfl
  · exact fun _ _ => rfl

/-- The producer offers the frame if it is due, and remembers when the bus has taken it. -/
theorem tickWith_outcome (sender : Sender) (frame : Frame) (now : Int) (producer : Producer) :
    (Producer.tickWith (D := D) sender frame now producer).Yields fun after exchanges =>
      ∃ outcome : Outcome, exchanges = sends sender frame outcome ∧
        (outcome ≠ none ↔ Pacer.due ⟨producer.period, producer.lastTx⟩ now = true) ∧
        after = if outcome = some true then { producer with lastTx := now } else producer := by
  unfold Producer.tickWith
  split
  · rename_i off
    exact ⟨none, rfl, by simp [Pacer.due, off], rfl⟩
  · rename_i on
    split
    · rename_i early
      exact ⟨none, rfl, by simp [Pacer.due, early], rfl⟩
    · rename_i elapsed
      have due : Pacer.due ⟨producer.period, producer.lastTx⟩ now = true := by
        simp only [Pacer.due, on, decide_false, Bool.not_false, Int.not_lt.mp elapsed, decide_true, Bool.and_self]
      intro sent
      refine ⟨some sent, rfl, iff_of_true (Option.some_ne_none sent) due, ?_⟩
      cases sent with
      | false => rfl
      | true => rfl

theorem tickWith_yields {producer : Producer} {emission : Emission} (paced : Paced producer emission)
    (sender : Sender) (frame : Frame) (now : Int) :
    (Producer.tickWith (D := D) sender frame now producer).Yields fun after exchanges =>
      ∃ outcome, exchanges = sends sender frame outcome ∧ Paced after (emission.after (.tick now outcome)) := by
  refine yields_mono (tickWith_outcome sender frame now producer) fun after exchanges told => ?_
  obtain ⟨outcome, offered, rightly, rfl⟩ := told
  obtain ⟨knows, keeps⟩ := keeps_tick paced.knows paced.keeps rightly
  refine ⟨outcome, offered, ?_, keeps⟩
  by_cases sent : outcome = some true
  · subst sent
    exact knows
  · rw [Pacer.after, if_neg sent] at knows
    rwa [if_neg sent]

/-! ## Requests of the other services -/

/-- The program leaves the producers' requests to others. -/
theorem silent_yields {A : Type} {program : Task D A}
    (issues : program.Issues fun effect => IsProduced effect = false) :
    program.Yields fun _ exchanges => produced exchanges = [] :=
  yields_mono (yields_issues issues) fun _ _ => produced_none

theorem answers_silent {effect : Effect D} (answers : Answers effect) : IsProduced effect = false := by
  cases effect with
  | send sender frame => exact answers.elim
  | provide handler => exact answers.elim
  | _ => rfl

theorem timeouts_silent (slots : List (RpdoSlot D)) : produced (slots.flatMap timeoutCalls) = [] := by
  refine produced_none fun exchange member => ?_
  obtain ⟨handler, same⟩ := timeoutCalls_effect member
  rw [same]
  rfl

theorem timeout_silent : IsProduced (timeoutFrame options : Effect D) = false := rfl

theorem response_silent {node : NodeId} (payload : Payload) :
    IsProduced (.send .sdo (SdoServer.tsdoFrame node payload) : Effect D) = false := rfl

theorem lost_silent (watches : List (WatchSlot D)) : produced (watches.flatMap lostCalls) = [] := by
  refine produced_none fun exchange member => ?_
  obtain ⟨w, _, called⟩ := List.mem_flatMap.mp member
  obtain ⟨handler, _, called⟩ := List.mem_flatMap.mp called
  rw [List.mem_singleton.mp called]
  rfl

/-! ## The server -/

/-- The dispatch of frames leaves the producers alone. -/
structure Untouched (before after : Server V D) (exchanges : Exchanges D) : Prop where
  tpdo : after.tpdo = before.tpdo
  heartbeat : after.hbProducer = before.hbProducer
  sync : after.syncProducer = before.syncProducer
  silent : produced exchanges = []

theorem dispatches_untouched {frame : Frame} {after : Server V D} {exchanges : Exchanges D}
    (dispatches : Dispatches options dictionary frame server after exchanges) :
    Untouched server after exchanges := by
  have silent : produced exchanges = [] :=
    produced_none fun exchange member => answers_silent (dispatches_answers dispatches exchange member)
  cases dispatches with
  | unknown nmt decoded => exact ⟨rfl, rfl, rfl, silent⟩
  | stays nmt decoded same => exact ⟨rfl, rfl, rfl, silent⟩
  | enters nmt decoded different now => exact ⟨rfl, rfl, rfl, silent⟩
  | request other sdo => exact ⟨rfl, rfl, rfl, silent⟩
  | process other process now processes =>
    cases processes with
    | ignored slot state => exact ⟨rfl, rfl, rfl, silent⟩
    | received slot state => exact ⟨rfl, rfl, rfl, silent⟩
    | heard absent slot => exact ⟨rfl, rfl, rfl, silent⟩
    | unknown absent quiet => exact ⟨rfl, rfl, rfl, silent⟩

theorem dispatchAll_untouched (frames : List Frame) (server : Server V D) :
    (dispatchAll options dictionary frames server).Yields fun after exchanges => Untouched server after exchanges := by
  induction frames generalizing server with
  | nil => exact ⟨rfl, rfl, rfl, rfl⟩
  | cons frame rest ih =>
    refine yields_bind.mpr (yields_mono (dispatchRx_yields frame server) fun middle first dispatches => ?_)
    have own := dispatches_untouched dispatches
    refine yields_mono (ih middle) fun after second later => ?_
    constructor
    · rw [later.tpdo, own.tpdo]
    · rw [later.heartbeat, own.heartbeat]
    · rw [later.sync, own.sync]
    · rw [produced_append, own.silent, later.silent, List.append_nil]

theorem apply_untouched (s : NmtState) (server : Server V D) :
    (applyNmtState s server).Yields fun after exchanges => Untouched server after exchanges := by
  refine yields_mono (applyNmtState_yields s server) fun after exchanges outcome => ?_
  obtain ⟨_, rfl, rfl⟩ | ⟨_, now, rfl, rfl⟩ := outcome
  · exact ⟨rfl, rfl, rfl, rfl⟩
  · refine ⟨rfl, rfl, rfl, ?_⟩
    unfold announced
    cases server.onNmtChange with
    | none => rfl
    | some handler => rfl

theorem Untouched.represents {after : Server V D} {exchanges : Exchanges D}
    (untouched : Untouched server after exchanges) (represents : Represents server channels) :
    Represents after channels where
  tpdo := untouched.tpdo ▸ represents.tpdo
  heartbeat := untouched.heartbeat ▸ represents.heartbeat
  sync := untouched.sync ▸ represents.sync

theorem tpdoTick_yields (represents : Represents server channels) (now : Int) (state : NmtState) :
    (TpdoProducer.tick now state server.tpdo).Yields fun after exchanges =>
      ∃ offers : List (Offer Payload), offers.length = channels.tpdo.length ∧
        exchanges = (if state = .operational then exchangesOf (tpdoLine D) channels.tpdo offers else []) ∧
        List.Forall₂ (fun s => Shows (slotOf s)) after
          (if state = .operational then tickedAll now channels.tpdo offers else channels.tpdo) := by
  unfold TpdoProducer.tick
  by_cases operational : state = .operational
  · simp only [operational, ne_eq, not_true_eq_false, if_false, if_true]
    exact tickSlots_yields represents.tpdo now
  · simp only [operational, ne_eq, not_false_eq_true, if_true, if_false]
    exact ⟨List.replicate _ none, List.length_replicate, rfl, represents.tpdo⟩

/-- The tick phase of a run, which starts in this state. -/
theorem tickServices_tells (represents : Represents server channels) (now : Int) :
    (tickServices options now server).Yields fun after exchanges => ∃ told,
      Tells after.nmtState channels (.run : Command options D) (⟨.clock, now⟩ :: exchanges) told ∧
        Represents after told := by
  refine yields_bind.mpr (yields_mono (rpdoTick_yields now server.nmtState server.rpdo) fun ticked timeouts due => ?_)
  obtain ⟨_, _, rfl⟩ := due
  refine yields_bind.mpr (yields_mono (silent_yields (emitTimeouts_issues timeout_silent ticked.1))
    fun _ emcys unheard => ?_)
  refine yields_bind.mpr (yields_mono (tpdoTick_yields represents now server.nmtState) fun tpdo data sent => ?_)
  obtain ⟨offers, complete, rfl, shows⟩ := sent
  refine yields_bind.mpr (yields_mono (silent_yields (drain_issues response_silent server.sdo))
    fun sdo responses quiet => ?_)
  refine yields_bind.mpr (yields_mono (tickWith_yields represents.heartbeat _ _ now) fun hb beats beaten => ?_)
  obtain ⟨heartbeat, rfl, pacedHb⟩ := beaten
  refine yields_bind.mpr (yields_mono (tickWith_yields represents.sync _ _ now) fun sync syncs synced => ?_)
  obtain ⟨outcome, rfl, pacedSync⟩ := synced
  refine yields_bind.mpr (yields_mono (hbTick_yields server.watches) fun watches losses reported => ?_)
  obtain ⟨_, rfl⟩ := reported
  refine ⟨_, .run now offers heartbeat outcome complete ?_, shows, pacedHb, pacedSync⟩
  have data : produced (if server.nmtState = .operational then
      exchangesOf (tpdoLine D) channels.tpdo offers else []) =
      if server.nmtState = .operational then exchangesOf (tpdoLine D) channels.tpdo offers else [] := by
    split
    · exact channels_produced channels.tpdo offers
    · rfl
  simp only [produced_append, timeouts_silent, unheard, quiet, data, lost_silent, List.nil_append, List.append_nil,
    sends_produced (.inl rfl), sends_produced (.inr rfl)]
  rfl

theorem runServer_tells (represents : Represents server channels) :
    (runServer options dictionary server).Yields fun after exchanges => ∃ told,
      Tells after.nmtState channels (.run : Command options D) exchanges told ∧ Represents after told := by
  refine yields_bind.mpr fun now => ?_
  have dispatched : (dispatchAll options dictionary server.rxQueue { server with rxQueue := [] }).Yields
      (Untouched { server with rxQueue := [] }) := dispatchAll_untouched server.rxQueue _
  refine yields_bind.mpr (yields_mono dispatched fun middle first untouched => ?_)
  have ready : Represents middle channels :=
    ⟨untouched.tpdo ▸ represents.tpdo, untouched.heartbeat ▸ represents.heartbeat,
      untouched.sync ▸ represents.sync⟩
  refine yields_mono (tickServices_tells ready now) fun after second outcome => ?_
  obtain ⟨told, tells, after⟩ := outcome
  refine ⟨told, ?_, after⟩
  cases tells with
  | run now offers heartbeat sync complete told =>
    refine .run now offers heartbeat sync complete ?_
    show produced (first ++ second) = _
    rw [produced_append, untouched.silent, List.nil_append, told]
  | other others silent => exact absurd trivial others

theorem setup_shows {slots : List (TpdoSlot D)} {channels : List (Channel ℕ D)}
    (shows : List.Forall₂ (fun s => Shows (slotOf s)) slots channels) (i id : ℕ) (cfg : TpdoConfig D) (now : Int) :
    List.Forall₂ (fun s => Shows (slotOf s))
      (slots.modify i fun s => { s with provider := cfg.provider, period := cfg.period, lastTx := now, cobId := id })
      (channels.modify i fun _ => .configured id cfg.provider cfg.period now) := by
  induction shows generalizing i with
  | nil => cases i <;> exact .nil
  | cons first rest ih =>
    cases i with
    | zero => exact .cons (shows_configured id cfg.provider cfg.period now) rest
    | succ i => exact .cons first (ih i)

theorem perform_tells (represents : Represents server channels) (command : Command options D) :
    (perform options dictionary command server).Yields fun after exchanges => ∃ told,
      Tells after.nmtState channels command exchanges told ∧ Represents after told := by
  -- An operation that leaves the producers alone tells nothing about them.
  have elsewhere (others : ¬Concerns command) {after : Server V D} {exchanges : Exchanges D}
      (untouched : Untouched server after exchanges) :
      ∃ told, Tells after.nmtState channels command exchanges told ∧ Represents after told :=
    ⟨channels, .other others untouched.silent, untouched.represents represents⟩
  cases command with
  | receive frame =>
    refine elsewhere id ?_
    unfold enqueueRx
    split
    · exact ⟨rfl, rfl, rfl, rfl⟩
    · exact ⟨rfl, rfl, rfl, rfl⟩
  | run => exact runServer_tells represents
  | start => exact yields_mono (apply_untouched _ server) fun after exchanges => elsewhere id
  | stop => exact yields_mono (apply_untouched _ server) fun after exchanges => elsewhere id
  | setupRpdo i cobId valid cfg =>
    refine yields_bind.mpr fun now => ?_
    unfold RpdoConsumer.setup
    dsimp only
    split
    · exact fun _ => elsewhere id ⟨rfl, rfl, rfl, rfl⟩
    · exact elsewhere id ⟨rfl, rfl, rfl, rfl⟩
  | setupTpdo i cobId valid cfg =>
    intro now
    refine ⟨_, .setupTpdo now, ?_, represents.heartbeat, represents.sync⟩
    exact setup_shows represents.tpdo (i - 1) _ cfg now
  | setHeartbeatPeriod period =>
    intro now
    exact ⟨_, .setHeartbeatPeriod now, represents.tpdo, ⟨knows_fresh period now, keeps_fresh period now⟩,
      represents.sync⟩
  | setSyncPeriod period =>
    intro now
    exact ⟨_, .setSyncPeriod now, represents.tpdo, represents.heartbeat,
      ⟨knows_fresh period now, keeps_fresh period now⟩⟩
  | onNmtChange handler => exact elsewhere id ⟨rfl, rfl, rfl, rfl⟩
  | onResetNode handler => exact elsewhere id ⟨rfl, rfl, rfl, rfl⟩
  | onResetCommunication handler => exact elsewhere id ⟨rfl, rfl, rfl, rfl⟩
  | watchHeartbeat remote timeout onLost =>
    refine yields_bind.mpr fun now => ?_
    unfold HbConsumer.watch
    dsimp only
    split
    · exact elsewhere id ⟨rfl, rfl, rfl, rfl⟩
    · split
      · exact fun _ => elsewhere id ⟨rfl, rfl, rfl, rfl⟩
      · exact elsewhere id ⟨rfl, rfl, rfl, rfl⟩
  | emitEmcy errorCode errorRegister manufacturer => exact fun sent => elsewhere id ⟨rfl, rfl, rfl, rfl⟩

theorem performAll_follows (commands : List (Command options D)) (represents : Represents server channels) :
    (performAll options dictionary commands server).Yields fun final exchanges => ∃ labels told,
      exchanges = labels.flatMap (·.2) ∧ labels.map (·.1) = commands ∧
        Run (Follows options dictionary) (server, channels) labels (final, told) ∧ Represents final told := by
  refine accounted_run (fun _ => rfl) (fun _ _ _ => rfl) ?_ commands represents
  exact fun command server channels represents => perform_tells represents command

theorem initial_represents (options : Options) (server : Server V D)
    (tpdo : server.tpdo = List.replicate options.tpdoCount {})
    (heartbeat : server.hbProducer = {}) (sync : server.syncProducer = {}) :
    Represents server (.initial options) where
  tpdo := by
    rw [tpdo]
    have fresh : Shows (slotOf ({} : TpdoSlot D)) { address := 0 } := shows_configured 0 none 0 0
    unfold Channels.initial
    generalize options.tpdoCount = count
    induction count with
    | zero => exact .nil
    | succ count ih => exact .cons fresh ih
  heartbeat := heartbeat ▸ ⟨knows_fresh 0 0, keeps_fresh 0 0⟩
  sync := sync ▸ ⟨knows_fresh 0 0, keeps_fresh 0 0⟩

end Emblib.PacedProducers
