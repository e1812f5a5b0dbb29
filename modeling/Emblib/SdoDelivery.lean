import Emblib.SdoServer

/-! SDO responses are delivered exactly once and in order. Requests and drains come in any
order, and the bus may refuse any frame: what has been sent and what is still queued are
the responses to the requests that found room, one after the other. -/
namespace Emblib.SdoDelivery
open Programs Can Sdo ObjectDictionary SdoServer
open CircularBufferRefinement (Represents represents_nil represents_length)

/-! ## Draining to a bus -/

section Drain
variable {V W : Type} {node : NodeId} {accepts : Frame → W → Bool × W} {server : Server V}
  {pending : List Payload} {world : W} {sent : List Frame}

/-- A bus that decides about each frame as it likes; the frames it takes are written down. -/
def deliver (accepts : Frame → W → Bool × W) (frame : Frame) (bus : W × List Frame) :
    Bool × (W × List Frame) :=
  let (taken, world) := accepts frame bus.1
  (taken, (world, if taken then bus.2 ++ [frame] else bus.2))

/-- Draining to this bus. -/
def drained (node : NodeId) (accepts : Frame → W → Bool × W) (fuel : Nat) (server : Server V)
    (bus : W × List Frame) : Server V × (W × List Frame) :=
  run (R := fun _ => Bool) (deliver accepts) (drainLoop node Program.perform fuel server) bus

/-- What a drain takes from the queue has been sent in order, and the rest is queued. It
ends early only with a frame that the bus refuses. -/
theorem drained_delivers (fuel : Nat) (represents : Represents tsdoQueue server.queue pending)
    (enough : pending.length ≤ fuel) :
    let after := drained node accepts fuel server (world, sent)
    ∃ gone rest, pending = gone ++ rest ∧ after.2.2 = sent ++ gone.map (tsdoFrame node) ∧
      Represents tsdoQueue after.1.queue rest ∧ after.1.values = server.values ∧
      ((∀ frame world, (accepts frame world).1 = true) → rest = []) := by
  induction fuel generalizing server world sent pending with
  | zero =>
    obtain rfl := List.eq_nil_of_length_eq_zero (Nat.le_zero.mp enough)
    exact ⟨[], [], rfl, (List.append_nil sent).symm, represents, rfl, fun _ => rfl⟩
  | succ fuel ih =>
    simp only [drained, drainLoop, InplaceQueue.run_empty_of_represents represents]
    cases pending with
    | nil => exact ⟨[], [], rfl, (List.append_nil sent).symm, represents, rfl, fun _ => rfl⟩
    | cons front pending =>
      simp only [List.isEmpty_cons, Bool.false_eq_true, if_false,
        InplaceQueue.run_front_of_represents represents, slotPayload, run_bind, run_perform, deliver]
      cases taken : (accepts (tsdoFrame node front) world).1 with
      | false =>
        refine ⟨[], front :: pending, rfl, (List.append_nil sent).symm, represents, rfl, fun all => ?_⟩
        exact absurd (taken.symm.trans (all _ _)) Bool.false_ne_true
      | true =>
        simp only [Bool.not_true, Bool.false_eq_true, if_false, if_true]
        have rest := @ih { server with queue := (run InplaceStorage.access (InplaceQueue.pop tsdoQueue) server.queue).2 }
          pending (accepts (tsdoFrame node front) world).2 (sent ++ [tsdoFrame node front])
          (InplaceQueue.pop_represents represents) (Nat.le_of_succ_le_succ enough)
        obtain ⟨gone, rest, split, delivered, queued, same, empty⟩ := rest
        refine ⟨front :: gone, rest, congrArg (front :: ·) split, ?_, queued, same, empty⟩
        exact delivered.trans (List.append_cons sent _ _).symm

end Drain

/-! ## Requests and drains in any order -/

inductive Event where
  | request (frame : Frame)
  | drain

/-- The server and the bus, with what has been sent and which requests have found room for
their response. -/
structure History (V W : Type) where
  server : Server V
  world : W
  sent : List Frame
  answered : List (Payload × Payload)

section Delivery
variable {V W : Type} (node : NodeId) (dictionary : List (OdEntry V)) (accepts : Frame → W → Bool × W)

/-- A request finds room if fewer than 16 responses are still to be sent. -/
def step (history : History V W) : Event → History V W
  | .request frame =>
    { history with
      server := (tryHandle node dictionary frame history.server).2
      answered :=
        if Answered node frame ∧ history.answered.length - history.sent.length < 16 then
          history.answered ++ [(frame.payload, answer dictionary frame.payload history.server.values)]
        else history.answered }
  | .drain =>
    let (server, (world, sent)) := run (R := fun _ => Bool) (deliver accepts)
      (drain node Program.perform history.server) (history.world, history.sent)
    { history with server, world, sent }

/-- Nothing has happened, with any values in the variables. -/
def History.initial (values : V) (world : W) : History V W where
  server := { values, queue := .initial }
  world := world
  sent := []
  answered := []

variable {node dictionary accepts} {history : History V W}

/-- What is sent and what is queued are the responses, in order, and each response has the
address of its request. -/
structure Delivers (node : NodeId) (history : History V W) (gone rest : List Payload) : Prop where
  split : history.answered.map Prod.snd = gone ++ rest
  sent : history.sent = gone.map (tsdoFrame node)
  queued : Represents tsdoQueue history.server.queue rest
  addressed : ∀ exchange, exchange ∈ history.answered → addressBytes exchange.2 = addressBytes exchange.1

theorem initial_delivers (values : V) (world : W) :
    Delivers node (History.initial values world) [] [] where
  split := rfl
  sent := rfl
  queued := represents_nil rfl rfl
  addressed := fun _ member => nomatch member

/-- The responses that are still to be sent are those in the queue. -/
theorem delivers_pending (delivers : Delivers node history gone rest) :
    history.answered.length - history.sent.length = rest.length := by
  have total := congrArg List.length delivers.split
  rw [List.length_map, List.length_append] at total
  rw [total, delivers.sent, List.length_map, Nat.add_sub_cancel_left]

theorem request_delivers (frame : Frame) (delivers : Delivers node history gone rest) :
    ∃ rest, Delivers node (step node dictionary accepts history (.request frame)) gone rest := by
  by_cases answered : Answered node frame
  · have queued := @tryHandle_represents _ _ dictionary _ _ _ answered delivers.queued
    by_cases room : rest.length < 16
    · refine ⟨rest ++ [answer dictionary frame.payload history.server.values], ?_, delivers.sent, ?_, ?_⟩
      · simp only [step, answered, delivers_pending delivers, room, and_self, if_true]
        rw [List.map_append, delivers.split, List.append_assoc]
        rfl
      · rwa [if_pos room] at queued
      · intro exchange member
        simp only [step, answered, delivers_pending delivers, room, and_self, if_true] at member
        rcases List.mem_append.mp member with earlier | last
        · exact delivers.addressed exchange earlier
        · obtain rfl := List.mem_singleton.mp last
          exact answer_address _ _
    · rw [if_neg room] at queued
      refine ⟨rest, ?_, delivers.sent, queued, ?_⟩
      · simp only [step, delivers_pending delivers, room, and_false, if_false]
        exact delivers.split
      · simp only [step, delivers_pending delivers, room, and_false, if_false]
        exact delivers.addressed
  · refine ⟨rest, ?_, delivers.sent, ?_, ?_⟩
    · simp only [step, answered, false_and, if_false]
      exact delivers.split
    · simp only [step, tryHandle_ignored answered]
      exact delivers.queued
    · simp only [step, answered, false_and, if_false]
      exact delivers.addressed

theorem drain_delivers (delivers : Delivers node history gone rest) :
    ∃ gone rest, Delivers node (step node dictionary accepts history .drain) gone rest := by
  have enough := Nat.le_of_eq (represents_length delivers.queued).symm
  obtain ⟨taken, left, split, sent, queued, _⟩ :=
    @drained_delivers _ _ node accepts _ _ history.world history.sent _ delivers.queued enough
  refine ⟨gone ++ taken, left, ?_, ?_, queued, delivers.addressed⟩
  · rw [List.append_assoc, ← split]
    exact delivers.split
  · rw [List.map_append, ← delivers.sent]
    exact sent

/-- **Responses are delivered exactly once and in order.** After any requests and drains,
whatever the bus has refused: the responses that were sent, in frames of this server, and
then those in the queue are exactly the responses to the requests that found room, in the
order of the requests, and each carries the index and subindex bytes of its request. A
drain that meets no refusal leaves nothing behind. -/
theorem responses_delivered_once (node : NodeId) (dictionary : List (OdEntry V))
    (accepts : Frame → W → Bool × W) (events : List Event) (values : V) (world : W) :
    let history := events.foldl (step node dictionary accepts) (History.initial values world)
    (∃ queued, Represents tsdoQueue history.server.queue queued ∧ queued.length ≤ 16 ∧
      history.sent ++ queued.map (tsdoFrame node) =
        history.answered.map fun exchange => tsdoFrame node exchange.2) ∧
      (∀ exchange, exchange ∈ history.answered →
        addressBytes exchange.2 = addressBytes exchange.1) ∧
      ((∀ frame world, (accepts frame world).1 = true) →
        (step node dictionary accepts history .drain).server.queue.size = 0) := by
  have run : ∀ (events : List Event) (history : History V W) gone rest, Delivers node history gone rest →
      ∃ gone rest, Delivers node (events.foldl (step node dictionary accepts) history) gone rest := by
    intro events
    induction events with
    | nil => exact fun history gone rest delivers => ⟨gone, rest, delivers⟩
    | cons event events ih =>
      intro history gone rest delivers
      cases event with
      | request frame =>
        obtain ⟨rest, delivers⟩ := request_delivers frame delivers
        exact ih _ _ _ delivers
      | drain =>
        obtain ⟨gone, rest, delivers⟩ := drain_delivers delivers
        exact ih _ _ _ delivers
  obtain ⟨gone, rest, delivers⟩ := run events _ _ _ (initial_delivers values world)
  refine ⟨⟨rest, delivers.queued, ?_, ?_⟩, delivers.addressed, fun all => ?_⟩
  · rw [← represents_length delivers.queued]
    exact delivers.queued.size
  · have frames := congrArg (List.map (tsdoFrame node)) delivers.split
    rw [List.map_append, ← delivers.sent, List.map_map] at frames
    exact frames.symm
  · have enough := Nat.le_of_eq (represents_length delivers.queued).symm
    obtain ⟨_, left, _, _, queued, _, empty⟩ :=
      @drained_delivers _ _ node accepts _ _
        (events.foldl (step node dictionary accepts) (History.initial values world)).world
        (events.foldl (step node dictionary accepts) (History.initial values world)).sent _
        delivers.queued enough
    rw [empty all] at queued
    exact represents_length queued

end Delivery
end Emblib.SdoDelivery
