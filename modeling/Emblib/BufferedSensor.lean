import Emblib.Sensor
import Emblib.SpscQueueFifo

/-! The buffered sensor, with the steps of `submit` in an interrupt and of `process` in the main
loop in any order. The queue drops a sample or passes it on whole, and only the main loop touches
the core; so the core does not see that the samples are late. -/
namespace Emblib.BufferedSensor
open Runs InplaceStorage Sensor
open SpscQueue hiding State Event Step initial
open SpscQueueFifo (invariant_run pop_first empty_pending full_pending start_le index_equal)

/-- Where the main loop is: outside of `process`, in the condition of its loop, or in its body. -/
inductive Main (T : Type) where
  | outside
  | draining
  | submitting (raw : Slot T)

structure State (w : Nat) (T C : Type) where
  queue : SpscQueue.State w T
  main : Main T
  core : C

def initial (core : C) : State w T C where
  queue := SpscQueue.initial
  main := .outside
  core := core

inductive Event (T : Type) where
  | queue (event : SpscQueue.Event T)
  | processBegin
  | coreSubmit (sample : T)

/-- The steps of `try_push`, which is all that `submit` does. -/
def OfSubmit : SpscQueue.Event T → Prop
  | .pushBegin _ => True
  | .pushFull => True
  | .pushCheck => True
  | .constructBegin => True
  | .constructEnd => True
  | .pushReturn _ => True
  | _ => False

/-- The steps of `try_pop` before it returns. -/
def InsidePop : SpscQueue.Event T → Prop
  | .popBegin => True
  | .takeBegin => True
  | .takeEnd => True
  | .destroyBegin => True
  | .destroyEnd => True
  | _ => False

inductive Step {w : Nat} {T C : Type} (submit : C → T → C) (c : Nat) (trivial : Bool) :
    State w T C → Event T → State w T C → Prop where
  | submitStep (side : OfSubmit event) (step : SpscQueue.Step c trivial state.queue event queue) :
      Step submit c trivial state (.queue event) { state with queue }
  | processBegin (outside : state.main = .outside) :
      Step submit c trivial state .processBegin { state with main := .draining }
  | popStep (draining : state.main = .draining) (inside : InsidePop event)
      (step : SpscQueue.Step c trivial state.queue event queue) :
      Step submit c trivial state (.queue event) { state with queue }
  | popReturn (draining : state.main = .draining)
      (step : SpscQueue.Step c trivial state.queue (.popReturn result) queue) :
      Step submit c trivial state (.queue (.popReturn result))
        { state with queue, main := .submitting result }
  | coreSubmit (submitting : state.main = .submitting (.live sample)) :
      Step submit c trivial state (.coreSubmit sample)
        { state with main := .draining, core := submit state.core sample }
  | popEmpty (draining : state.main = .draining)
      (step : SpscQueue.Step c trivial state.queue .popEmpty queue) :
      Step submit c trivial state (.queue .popEmpty) { state with queue, main := .outside }

/-! ## What happens to the samples -/

def Event.ofQueue : Event T → Option (SpscQueue.Event T)
  | .queue event => some event
  | _ => none

def queueEvents (trace : List (Event T)) : List (SpscQueue.Event T) := trace.filterMap Event.ofQueue

/-- The samples for which `try_push` returned true. -/
def accepted (trace : List (Event T)) : List T := pushed (queueEvents trace)

def Event.processed : Event T → List T
  | .coreSubmit sample => [sample]
  | _ => []

/-- The samples that the core has been given. -/
def processed (trace : List (Event T)) : List T := trace.flatMap Event.processed

def submittedBy : SpscQueue.Event T → List T
  | .pushBegin value => [value]
  | _ => []

/-- The arguments of `try_push`. -/
def submissions (events : List (SpscQueue.Event T)) : List T := events.flatMap submittedBy

def droppedBy : SpscQueue.Event T → Nat
  | .pushFull => 1
  | _ => 0

/-- How often `try_push` has returned false. -/
def drops (events : List (SpscQueue.Event T)) : Nat := (events.map droppedBy).sum

/-- The sample of a `submit` that has not returned. -/
def inFlight : Producer w T → List T
  | .idle => []
  | .loaded value _ => [value]
  | .ready value _ => [value]
  | .constructing value _ => [value]
  | .constructed value _ => [value]

theorem queueEvents_snoc (trace : List (Event T)) (event : Event T) :
    queueEvents (trace ++ [event]) = queueEvents trace ++ event.ofQueue.toList := by
  rw [queueEvents, List.filterMap_append, queueEvents]
  cases event <;> rfl

section Steps
variable {w c : Nat} {T C : Type} {submit : C → T → C} {trivial : Bool} {core : C}
  {trace : List (Event T)} {state after : State w T C} {event : Event T}

/-- The queue in a buffered sensor is a queue. -/
theorem queue_run (run : Run (Step submit c trivial) (initial core) trace state) :
    Run (SpscQueue.Step c trivial) SpscQueue.initial (queueEvents trace) state.queue := by
  refine run_invariant (fun trace (state : State w T C) =>
    Run (SpscQueue.Step c trivial) SpscQueue.initial (queueEvents trace) state.queue) run .nil ?_
  intro trace middle event after _ queue step
  rw [queueEvents_snoc]
  cases step with
  | submitStep _ step => exact .snoc queue step
  | popStep _ _ step => exact .snoc queue step
  | popReturn _ step => exact .snoc queue step
  | popEmpty _ step => exact .snoc queue step
  | processBegin _ => simpa [Event.ofQueue] using queue
  | coreSubmit _ => simpa [Event.ofQueue] using queue

/-- What `try_pop` has returned and the core has not been given. -/
def inHand : Main T → List (Slot T)
  | .submitting raw => [raw]
  | _ => []

/-- The core has been given what the queue has returned, in order. -/
structure CaughtUp (submit : C → T → C) (core : C) (trace : List (Event T)) (state : State w T C) :
    Prop where
  core : state.core = (processed trace).foldl submit core
  removed : removed (queueEvents trace) = (processed trace).map .live ++ inHand state.main

theorem removed_submit {event : SpscQueue.Event T} (side : OfSubmit event) : event.removed = [] := by
  cases event with
  | popReturn | clearReturn => exact side.elim
  | _ => rfl

theorem removed_pop {event : SpscQueue.Event T} (inside : InsidePop event) : event.removed = [] := by
  cases event with
  | popReturn | clearReturn => exact inside.elim
  | _ => rfl

theorem processed_snoc (trace : List (Event T)) (event : Event T) :
    processed (trace ++ [event]) = processed trace ++ event.processed := by
  rw [processed, List.flatMap_append, List.flatMap_singleton, processed]

/-- The elements that a step of the queue returns. -/
def Event.returned (event : Event T) : List (Slot T) := removed event.ofQueue.toList

/-- A step gives the core what was in hand, or takes something in hand. -/
theorem caughtUp_snoc (caughtUp : CaughtUp submit core trace state)
    (given : after.core = event.processed.foldl submit state.core)
    (hand : inHand state.main ++ event.returned = event.processed.map .live ++ inHand after.main) :
    CaughtUp submit core (trace ++ [event]) after where
  core := by rw [given, caughtUp.core, processed_snoc, List.foldl_append]
  removed := by
    rw [queueEvents_snoc, removed_append, caughtUp.removed, processed_snoc, List.map_append,
      List.append_assoc, List.append_assoc]
    exact congrArg _ hand

theorem caughtUp_step (caughtUp : CaughtUp submit core trace state)
    (step : Step submit c trivial state event after) :
    CaughtUp submit core (trace ++ [event]) after := by
  refine caughtUp_snoc caughtUp ?_ ?_
  · cases step with
    | submitStep | processBegin | popStep | popReturn | coreSubmit | popEmpty => rfl
  · cases step with
    | submitStep side _ =>
      have none : removed [_] = [] := (List.flatMap_singleton _ _).trans (removed_submit side)
      exact (congrArg _ none).trans (List.append_nil _)
    | popStep _ inside _ =>
      have none : removed [_] = [] := (List.flatMap_singleton _ _).trans (removed_pop inside)
      exact (congrArg _ none).trans (List.append_nil _)
    | processBegin outside =>
      rw [outside]
      rfl
    | popReturn draining _ =>
      rw [draining]
      rfl
    | coreSubmit submitting =>
      rw [submitting]
      rfl
    | popEmpty draining _ =>
      rw [draining]
      rfl

theorem caughtUp_run (run : Run (Step submit c trivial) (initial core) trace state) :
    CaughtUp submit core trace state :=
  run_invariant (CaughtUp submit core) run ⟨rfl, rfl⟩
    fun _ _ _ _ _ caughtUp step => caughtUp_step caughtUp step

/-! ## Which samples are accepted -/

/-- Every sample that was submitted is accepted, dropped or on its way, and those accepted are in
the order in which they were submitted. -/
structure Accounted (events : List (SpscQueue.Event T)) (queue : SpscQueue.State w T) : Prop where
  ordered : List.Sublist (pushed events ++ inFlight queue.producer) (submissions events)
  counted : (pushed events).length + drops events + (inFlight queue.producer).length =
    (submissions events).length

section Accounted
variable {events : List (SpscQueue.Event T)} {next : SpscQueue.Event T}
  {queue later : SpscQueue.State w T}

theorem submissions_snoc (events : List (SpscQueue.Event T)) (next : SpscQueue.Event T) :
    submissions (events ++ [next]) = submissions events ++ submittedBy next := by
  rw [submissions, List.flatMap_append, List.flatMap_singleton, submissions]

theorem drops_snoc (events : List (SpscQueue.Event T)) (next : SpscQueue.Event T) :
    drops (events ++ [next]) = drops events + droppedBy next := by
  rw [drops, List.map_append, List.sum_append, drops, List.map_singleton, List.sum_singleton]

/-- A step that neither begins nor ends a `try_push`. -/
theorem accounted_other (accounted : Accounted events queue) (submits : submittedBy next = [])
    (pushes : next.pushed = []) (drops : droppedBy next = 0)
    (same : inFlight later.producer = inFlight queue.producer) :
    Accounted (events ++ [next]) later where
  ordered := by
    rw [pushed_snoc, submissions_snoc, submits, pushes, same, List.append_nil, List.append_nil]
    exact accounted.ordered
  counted := by
    rw [pushed_snoc, submissions_snoc, drops_snoc, submits, pushes, drops, same, List.append_nil,
      List.append_nil]
    exact accounted.counted

theorem accounted_step (accounted : Accounted events queue)
    (step : SpscQueue.Step c trivial queue next later) : Accounted (events ++ [next]) later := by
  have ordered := accounted.ordered
  have counted := accounted.counted
  cases step with
  | pushBegin idle =>
    rw [idle] at ordered counted
    refine ⟨?_, ?_⟩ <;> rw [pushed_snoc, submissions_snoc]
    · exact List.Sublist.append ordered (List.Sublist.refl _)
    · rw [drops_snoc, List.length_append, List.length_append, ← counted]
      rfl
  | pushFull loaded full =>
    rw [loaded] at ordered counted
    refine ⟨?_, ?_⟩ <;> rw [pushed_snoc, submissions_snoc]
    · have accepted : List.Sublist (pushed events) (submissions events) :=
        (List.sublist_append_left _ _).trans ordered
      simpa only [SpscQueue.Event.pushed, submittedBy, inFlight, List.append_nil] using accepted
    · rw [drops_snoc, List.length_append, List.length_append, ← counted]
      rfl
  | pushReturn constructed =>
    rw [constructed] at ordered counted
    refine ⟨?_, ?_⟩ <;> rw [pushed_snoc, submissions_snoc]
    · exact List.Sublist.append ordered (List.Sublist.refl _)
    · rw [drops_snoc, List.length_append, List.length_append, ← counted]
      simp only [SpscQueue.Event.pushed, submittedBy, droppedBy, inFlight, List.length_singleton,
        List.length_nil]
      omega
  | pushCheck producer | constructBegin producer | constructEnd producer =>
    refine accounted_other accounted rfl rfl rfl ?_
    rw [producer]
    rfl
  | _ => exact accounted_other accounted rfl rfl rfl rfl

theorem accounted_run (run : Run (SpscQueue.Step c trivial) SpscQueue.initial events queue) :
    Accounted events queue :=
  run_invariant Accounted run ⟨List.Sublist.refl _, rfl⟩
    fun _ _ _ _ _ accounted step => accounted_step accounted step

end Accounted

/-! ## Deferred sensing -/

/-- `process` has just returned, or is not running and has left nothing in the queue. -/
def Emptied (trace : List (Event T)) (state : State w T C) : Prop :=
  (∃ before, trace = before ++ [.queue .popEmpty]) ∨
    state.main = .outside ∧ state.queue.front = state.queue.back

/-- What has become of the samples so far: the core has been given accepted samples, in order and
with none left out, and all of them when the queue has been emptied; and a sample was dropped only
when the queue was full. -/
structure Deferred (submit : C → T → C) (c : Nat) (core : C) (trace : List (Event T))
    (state : State w T C) : Prop where
  caughtUp : processed trace <+: accepted trace ∧ state.core = (processed trace).foldl submit core
  emptied : Emptied trace state → state.core = (accepted trace).foldl submit core
  dropped : ∀ before, trace = before ++ [.queue .pushFull] →
    (accepted before).length - (removed (queueEvents before)).length = 2 ^ c
  accounted : Accounted (queueEvents trace) state.queue

theorem live_injective : Function.Injective (@Slot.live T) := fun _ _ same => Slot.live.inj same

/-- With nothing pending, the core has been given everything. -/
theorem all_processed (caughtUp : CaughtUp submit core trace state)
    (removes : removed (queueEvents trace) <+: (accepted trace).map .live)
    (none : inHand state.main = [])
    (all : (removed (queueEvents trace)).length = (accepted trace).length) :
    state.core = (accepted trace).foldl submit core := by
  rw [← @List.length_map _ _ (accepted trace) Slot.live] at all
  have same := removes.eq_of_length all
  rw [caughtUp.removed, none, List.append_nil] at same
  rw [caughtUp.core, List.map_injective_iff.mpr live_injective same]

theorem deferred_run (fits : c < w) (run : Run (Step submit c trivial) (initial core) trace state) :
    Deferred submit c core trace state := by
  have caughtUp := caughtUp_run run
  have invariant := invariant_run fits (queue_run run)
  refine ⟨⟨?_, caughtUp.core⟩, ?_, ?_, accounted_run (queue_run run)⟩
  · have removes := invariant.removed
    rw [caughtUp.removed] at removes
    exact (List.prefix_map_iff_of_injective live_injective).mp
      ((List.prefix_append _ _).trans removes)
  · rintro (⟨before, rfl⟩ | ⟨outside, empty⟩)
    · obtain ⟨middle, ran, last⟩ := run_snoc run
      cases last with
      | submitStep side _ => exact side.elim
      | popStep _ inside _ => exact inside.elim
      | popEmpty _ step =>
        have pending := empty_pending fits (invariant_run fits (queue_run ran)) step
        have events : queueEvents (before ++ [.queue .popEmpty]) =
            queueEvents before ++ [.popEmpty] := queueEvents_snoc _ _
        apply all_processed caughtUp invariant.removed rfl
        rw [accepted, events, removed_snoc, pushed_snoc]
        simpa [SpscQueue.Event.removed, SpscQueue.Event.pushed] using pending
    · apply all_processed caughtUp invariant.removed
      · rw [outside]
        rfl
      · exact (index_equal fits invariant).mp empty
  · rintro before rfl
    obtain ⟨middle, ran, last⟩ := run_snoc run
    cases last with
    | submitStep _ step => exact full_pending fits (invariant_run fits (queue_run ran)) step
    | popStep _ inside _ => exact inside.elim

end Steps

/-- **Deferred sensing is immediate sensing**, for every core; and each phase of a polyphase core
is a singlephase core of its own, given its components of the same frames as the others. -/
theorem deferred_equals_immediate {w c : Nat} {trivial : Bool} (fits : c < w) :
    (∀ (T C : Type) (submit : C → T → C) (core : C) (trace : List (Event T)) (state : State w T C),
      Run (Step submit c trivial) (initial core) trace state →
        Deferred submit c core trace state) ∧
    ∀ (n : Nat) (P C F Sample Raw Value Output : Type) (stages : Stages P C F Sample Raw Value Output)
      (cores : Polyphase n P C F) (trace : List (Event (Fin n → Sample)))
      (state : State w (Fin n → Sample) (Polyphase n P C F)),
      Run (Step (Polyphase.submit stages) c trivial) (initial cores) trace state →
        Emptied trace state → ∀ phase,
          state.core.values stages phase =
            (((accepted trace).map (· phase)).foldl (Singlephase.submit stages)
              (cores phase)).value stages := by
  refine ⟨fun T C submit core trace state run => deferred_run fits run, ?_⟩
  intro n P C F Sample Raw Value Output stages cores trace state run emptied phase
  rw [Polyphase.values, Polyphase.value, (deferred_run fits run).emptied emptied, submitAll_phase]

/-- A sample that is submitted before `process` begins, to a core that adds them up. -/
theorem deferred_equals_immediate_testing :
    ∃ trace state, Run (Step (· + ·) 1 true) (initial 30 : State 2 Nat Nat) trace state ∧
      accepted trace = [7] ∧ Emptied trace state ∧ state.core = [7].foldl (· + ·) 30 := by
  have submit : Run (Step (· + ·) 1 true) (initial 30 : State 2 Nat Nat) [.queue (.pushBegin 7),
      .queue .pushCheck, .queue .constructBegin, .queue .constructEnd, .queue (.pushReturn 7)] _ :=
    .snoc (.snoc (.snoc (.snoc (.snoc .nil (.submitStep (by trivial) (.pushBegin rfl)))
      (.submitStep (by trivial) (.pushCheck rfl (by decide))))
      (.submitStep (by trivial) (.constructBegin rfl)))
      (.submitStep (by trivial) (.constructEnd rfl))) (.submitStep (by trivial) (.pushReturn rfl))
  have pop := Run.snoc (.snoc (.snoc (.snoc submit (.processBegin rfl))
    (.popStep rfl (by trivial) (.popBegin rfl))) (.popStep rfl (by trivial) (.takeBegin rfl (by decide))))
    (.popStep rfl (by trivial) (.takeEnd rfl))
  have given := Run.snoc (.snoc (.snoc (.snoc pop (.popStep rfl (by trivial) (.destroyBegin rfl)))
    (.popStep rfl (by trivial) (.destroyEnd rfl))) (.popReturn rfl (.popReturn rfl))) (.coreSubmit rfl)
  have processed := Run.snoc (.snoc given (.popStep rfl (by trivial) (.popBegin rfl)))
    (.popEmpty rfl (.popEmpty rfl (by decide)))
  have fits : 1 < 2 := by decide
  exact ⟨_, _, processed, rfl, .inl ⟨_, rfl⟩,
    ((deferred_equals_immediate fits).1 _ _ _ _ _ _ processed).emptied (.inl ⟨_, rfl⟩)⟩

end Emblib.BufferedSensor
