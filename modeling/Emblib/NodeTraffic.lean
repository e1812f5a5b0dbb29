import Emblib.Library.Account
import Emblib.Library.Channel
import Emblib.LivenessMonitors

/-! The traffic of a `raw::node` is told by its operations and exchanges alone: the frames that it
has queued are received in the order of their arrival, each by the first slot that it passes, and
what it sends keeps the periods of its slots. -/
namespace Emblib.NodeTraffic
open Programs Runs Accounts Pacers Can RawNode LivenessMonitors

variable {D : Type} {options : NodeOptions}

abbrev Exchanges (D : Type) := List (Sigma (Reply (D := D)))

/-! ## What is told -/

/-- What a received frame is compared with, and who receives it. -/
structure Filter (D : Type) where
  format : Format
  id : ℕ
  mask : ℕ
  handler : Option D

/-- The bits of the identifier under the mask are those of the filter. -/
def Filter.Passes (filter : Filter D) (frame : Frame) : Prop :=
  frame.format = filter.format ∧ frame.id &&& filter.mask = filter.id &&& filter.mask

instance (filter : Filter D) (frame : Frame) : Decidable (filter.Passes frame) :=
  inferInstanceAs (Decidable (_ ∧ _))

/-- What a periodic frame has besides its payload. -/
structure Header where
  format : Format
  id : ℕ
  len : ℕ

def Header.frame (header : Header) (payload : Payload) : Frame where
  format := header.format
  id := header.id
  len := header.len
  payload := payload

/-- A transmitting slot asks for its payload and offers it under its header. -/
def txLine (D : Type) : Line (Effect D) Reply Header D Payload where
  offer header provider := do
    let payload ← Program.perform (E := Effect D) (.provide provider)
    return (payload, ← Program.perform (E := Effect D) (.send (header.frame payload)))
  exchanges header provider offered :=
    [⟨.provide provider, offered.1⟩, ⟨.send (header.frame offered.1), offered.2⟩]
  exact _ _ _ _ := rfl

structure Traffic (D : Type) where
  now : Int := 0
  pending : List Frame := []
  filters : List (Filter D) := []
  channels : List (Channel Header D) := []

/-- The call for a received frame, that of the first filter which it passes. -/
def Traffic.received (traffic : Traffic D) (frame : Frame) : Exchanges D :=
  ((traffic.filters.find? fun filter => filter.Passes frame).bind (·.handler)).toList.flatMap fun handler =>
    [⟨.receive handler frame, ()⟩]

/-- The timeout handlers that a run calls between what it receives and what it sends. -/
def IsTimeout : Effect D → Prop
  | .timeout _ => True
  | _ => False

/-- How the traffic goes on with an operation that has these exchanges. -/
inductive Tells (options : NodeOptions) (traffic : Traffic D) :
    RawOperation D → Exchanges D → Traffic D → Prop where
  | addRx (id : ℕ) (timeout : Int) (room : traffic.filters.length < options.rxSlots) :
      Tells options traffic (.addRx format id mask timeout handler onTimeout) [⟨.addFilter format id mask, ()⟩]
        { traffic with filters := traffic.filters ++ [⟨format, id, mask, handler⟩] }
  | addPeriodicTx (id : ℕ) (room : traffic.channels.length < options.txSlots) :
      Tells options traffic (.addPeriodicTx format id len period provider) []
        { traffic with
          channels := traffic.channels ++ [.configured ⟨format, id, len⟩ provider period traffic.now] }
  | accepted (room : traffic.pending.length < options.rxQueueCapacity) :
      Tells options traffic (.receive frame) [] { traffic with pending := traffic.pending ++ [frame] }
  | dropped (full : options.rxQueueCapacity ≤ traffic.pending.length) :
      Tells options traffic (.receive frame) [] traffic
  | run (timeouts : Exchanges D) (offers : List (Offer Payload)) (complete : offers.length = traffic.channels.length)
      (silences : ∀ exchange ∈ timeouts, IsTimeout exchange.1) :
      Tells options traffic (.run now)
        (traffic.pending.flatMap traffic.received ++
          (timeouts ++ exchangesOf (txLine D) traffic.channels offers))
        { traffic with
          now := now
          pending := []
          channels := tickedAll now traffic.channels offers }

/-- A step of a node, with what it tells about the traffic. -/
def Follows (options : NodeOptions) :
    Node D × Traffic D → RawOperation D × Exchanges D → Node D × Traffic D → Prop :=
  Accounted (fun operation => operation.perform options) fun _ => Tells options

/-- The operations one after the other. -/
def performAll (options : NodeOptions) : List (RawOperation D) → Node D → Task D (Node D)
  | [], node => return node
  | operation :: rest, node => do performAll options rest (← operation.perform options node)

/-! ## What the node remembers -/

def filterOf (s : RxSlot D) : Filter D := ⟨s.format, s.id, s.mask, s.handler⟩

def senderOf (s : TxSlot D) : Slot Header D := ⟨⟨s.format, s.id, s.len⟩, s.provider, s.period, s.lastTx⟩

structure Represents (node : Node D) (traffic : Traffic D) : Prop where
  now : node.now = traffic.now
  pending : node.rxQueue = traffic.pending
  filters : node.rx.map filterOf = traffic.filters
  channels : List.Forall₂ (fun s => Shows (senderOf s)) node.tx traffic.channels

variable {node : Node D} {traffic : Traffic D} {now : Int}

/-! ## Reception -/

theorem receiver_eq (rx : List (RxSlot D)) (frame : Frame) :
    ((rx.map filterOf).find? fun filter => filter.Passes frame).bind (·.handler) =
      (slotOf frame rx).bind fun i => rx[i]?.bind (·.handler) := by
  have passes : (fun filter : Filter D => decide (filter.Passes frame)) ∘ filterOf =
      fun s => decide (frame.format = s.format ∧ frame.id &&& s.mask = s.id &&& s.mask) := rfl
  unfold slotOf
  rw [List.find?_map, passes, List.find?_eq_bind_findIdx?_getElem?]
  cases rx.findIdx? fun s => frame.format = s.format ∧ frame.id &&& s.mask = s.id &&& s.mask with
  | none => rfl
  | some i =>
    simp only [Option.bind_some]
    cases rx[i]? with
    | none => rfl
    | some s => rfl

/-- A frame restarts the timer of its slot, and changes no filter. -/
theorem dispatchRx_tells (now : Int) (frame : Frame) {rx : List (RxSlot D)}
    (filters : rx.map filterOf = traffic.filters) :
    (dispatchRx now frame rx).Yields fun after exchanges =>
      exchanges = traffic.received frame ∧ after.map filterOf = traffic.filters := by
  have receiver := receiver_eq rx frame
  rw [filters] at receiver
  unfold dispatchRx Traffic.received
  rw [receiver]
  cases slotOf frame rx with
  | none => exact ⟨rfl, filters⟩
  | some i =>
    have called := callIf_yields (receive frame) (fun handler => [⟨.receive handler frame, ()⟩]) (fun _ _ => rfl)
      (rx[i]?.bind (·.handler))
    refine yields_bind.mpr (yields_mono called fun _ exchanges same => ⟨by rw [List.append_nil, same]; rfl, ?_⟩)
    rw [← filters]
    refine Watchdogs.map_modify_same filterOf ?_ rx i
    exact fun _ => rfl

theorem dispatchAll_tells (now : Int) (frames : List Frame) {rx : List (RxSlot D)}
    (filters : rx.map filterOf = traffic.filters) :
    (dispatchAll now frames rx).Yields fun after exchanges =>
      exchanges = frames.flatMap traffic.received ∧ after.map filterOf = traffic.filters := by
  induction frames generalizing rx with
  | nil => exact ⟨rfl, filters⟩
  | cons frame rest ih =>
    refine yields_bind.mpr (yields_mono (dispatchRx_tells now frame filters) fun middle first own => ?_)
    obtain ⟨rfl, between⟩ := own
    refine yields_mono (ih between) fun after second later => ?_
    obtain ⟨rfl, last⟩ := later
    exact ⟨List.flatMap_cons.symm, last⟩

theorem tickRx_tells (now : Int) {rx : List (RxSlot D)} (filters : rx.map filterOf = traffic.filters) :
    (tickRx now rx).Yields fun after exchanges =>
      (∀ exchange ∈ exchanges, IsTimeout exchange.1) ∧ after.map filterOf = traffic.filters := by
  refine yields_mono (tickRx_yields now rx) fun after exchanges ticked => ?_
  obtain ⟨rfl, rfl⟩ := ticked
  constructor
  · intro exchange member
    obtain ⟨s, _, called⟩ := List.mem_flatMap.mp member
    obtain ⟨handler, _, called⟩ := List.mem_flatMap.mp called
    rw [List.mem_singleton.mp called]
    trivial
  · rw [List.map_map, ← filters]
    refine List.map_congr_left fun s _ => ?_
    simp only [Function.comp_apply]
    split
    · rfl
    · rfl

/-! ## Transmission -/

def noted (now : Int) (s : TxSlot D) (sent : Bool) : TxSlot D := if sent then { s with lastTx := now } else s

theorem senderOf_noted (now : Int) (s : TxSlot D) (sent : Bool) :
    senderOf (noted now s sent) = (senderOf s).ticked now sent := by
  cases sent <;> rfl

theorem tickSlot_eq (now : Int) (s : TxSlot D) :
    tickSlot now s = do return noted now s (← (senderOf s).tick (txLine D) now) := by
  obtain ⟨format, id, len, period, lastTx, provider⟩ := s
  unfold tickSlot Slot.tick senderOf
  cases provider with
  | none => rfl
  | some provider =>
    dsimp only
    split
    · rfl
    · split
      · rfl
      · rfl

theorem tickTx_tells {tx : List (TxSlot D)} {channels : List (Channel Header D)}
    (shows : List.Forall₂ (fun s => Shows (senderOf s)) tx channels) (now : Int) :
    (tickTx now tx).Yields fun after exchanges =>
      ∃ offers : List (Offer Payload), offers.length = channels.length ∧
        exchanges = exchangesOf (txLine D) channels offers ∧
        List.Forall₂ (fun s => Shows (senderOf s)) after (tickedAll now channels offers) := by
  refine ticks_yields (senderOf_noted now) (tickSlot_eq now) ?_ ?_ shows
  · rfl
  · exact fun _ _ => rfl

/-! ## Operations -/

theorem runNode_tells (represents : Represents node traffic) (now : Int) :
    (runNode now node).Yields fun after exchanges => ∃ told,
      Tells options traffic (.run now) exchanges told ∧ Represents after told := by
  refine yields_bind.mpr (yields_mono (dispatchAll_tells now node.rxQueue represents.filters) fun rx _ received => ?_)
  obtain ⟨rfl, between⟩ := received
  refine yields_bind.mpr (yields_mono (tickRx_tells now between) fun rx timeouts ticked => ?_)
  refine yields_bind.mpr (yields_mono (tickTx_tells represents.channels now) fun tx _ sent => ?_)
  obtain ⟨silences, filters⟩ := ticked
  obtain ⟨offers, complete, rfl, shows⟩ := sent
  have tells : Tells options traffic (.run now) _ _ := .run timeouts offers complete silences
  rw [← represents.pending, ← List.append_nil (exchangesOf ..)] at tells
  exact ⟨_, tells, ⟨rfl, rfl, filters, shows⟩⟩

theorem perform_tells (represents : Represents node traffic) (operation : RawOperation D) :
    (operation.perform options node).Yields fun after exchanges => ∃ told,
      Tells options traffic operation exchanges told ∧ Represents after told := by
  cases operation with
  | addRx format id mask timeout handler onTimeout =>
    refine yields_bind.mpr ?_
    unfold ensure
    split
    · rename_i room
      have counted : traffic.filters.length < options.rxSlots := by
        rw [← represents.filters, List.length_map]
        exact of_decide_eq_true room
      refine fun _ => ⟨_, .addRx id timeout counted, represents.now, represents.pending, ?_, represents.channels⟩
      rw [List.map_append, represents.filters]
      rfl
    · exact nofun
  | addPeriodicTx format id len period provider =>
    refine yields_bind.mpr ?_
    unfold ensure
    split
    · rename_i room
      have counted : traffic.channels.length < options.txSlots := by
        rw [← represents.channels.length_eq]
        exact of_decide_eq_true room
      refine ⟨_, .addPeriodicTx id counted, represents.now, represents.pending, represents.filters, ?_⟩
      refine List.rel_append represents.channels (.cons ?_ .nil)
      rw [← represents.now]
      exact shows_configured (Header.mk format id len) provider period node.now
    · exact nofun
  | receive frame =>
    show ∃ told, Tells options traffic (.receive frame) [] told ∧ Represents (enqueueRx options frame node) told
    unfold enqueueRx
    by_cases room : node.rxQueue.length < options.rxQueueCapacity
    · rw [if_pos room]
      refine ⟨_, .accepted (represents.pending ▸ room), represents.now, ?_, represents.filters, represents.channels⟩
      rw [represents.pending]
    · rw [if_neg room]
      exact ⟨traffic, .dropped (represents.pending ▸ Nat.le_of_not_lt room), represents⟩
  | run sinceBoot => exact runNode_tells represents sinceBoot

theorem performAll_follows (operations : List (RawOperation D)) (represents : Represents node traffic) :
    (performAll options operations node).Yields fun final exchanges => ∃ labels told,
      exchanges = labels.flatMap (·.2) ∧ labels.map (·.1) = operations ∧
        Run (Follows options) (node, traffic) labels (final, told) ∧ Represents final told := by
  refine accounted_run (fun _ => rfl) (fun _ _ _ => rfl) ?_ operations represents
  exact fun operation node traffic represents => perform_tells represents operation

/-- Whatever the operations, the bus and the delegates do: a run calls, in the order of arrival
and for no frame twice, the handler of the first slot that each queued frame passes; and each
slot that sends offers one frame at each run that sees that a period has passed since the bus
took the last one, and no other frame. -/
theorem traffic_told (operations : List (RawOperation D)) :
    (performAll options operations {}).Yields fun final exchanges => ∃ labels traffic,
      exchanges = labels.flatMap (·.2) ∧ labels.map (·.1) = operations ∧
        Run (Follows options) ({}, {}) labels (final, traffic) ∧
        ∀ channel ∈ traffic.channels, channel.emission.Keeps := by
  have fresh : Represents ({} : Node D) {} := ⟨rfl, rfl, rfl, .nil⟩
  refine yields_mono (performAll_follows operations fresh) fun final exchanges outcome => ?_
  obtain ⟨labels, traffic, same, performed, run, after⟩ := outcome
  exact ⟨labels, traffic, same, performed, run, related_right after.channels fun _ _ shows => shows.keeps⟩

end Emblib.NodeTraffic
