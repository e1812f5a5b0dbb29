import Emblib.Library.Program

/-! `fsm::sp2::abstract_fsm`: the states are objects with virtual functions. Every function may dispatch
further events, so also `on_exit`, while the machine still is in the state that is left. -/
namespace Emblib.VirtualStates
open Programs

variable {I Event C : Type}

/-! ## The code -/

/-- What the functions of a state may do with the context, which is the machine. -/
inductive Access (C : Type) where
  | state
  | timeSinceStateEnter
  | context
  | setContext (value : C)

abbrev Access.Reply (I : Type) : Access C → Type
  | .state => I
  | .timeSinceStateEnter => Int
  | .context => C
  | .setContext _ => Unit

inductive Request (Event C : Type) where
  | access (access : Access C)
  | dispatch (event : Event)

abbrev Request.Reply (I : Type) : Request Event C → Type
  | .access request => request.Reply I
  | .dispatch _ => Unit

abbrev Action (I Event C A : Type) := Program (Request Event C) (Request.Reply I) A

/-- The states that `BaseState::create` makes, one for each enumerator. Its `id` gives the enumerator back. -/
structure States (I Event C : Type) where
  dispatch : I → Event → Action I Event C (Option I)
  onEnter : I → I → Action I Event C Unit
  onExit : I → I → Action I Event C Unit

/-- The calls of the functions of a state, an entry with the time of it. -/
inductive Call (I : Type) where
  | dispatch (i : I)
  | onEnter (i prev : I) (time : Int)
  | onExit (i next : I)

/-- The machine, how often the clock has been read, and the calls that have been made. -/
structure Object (I C : Type) where
  currentState : I
  enterTimepoint : Int
  context : C
  readings : Nat
  trace : List (Call I)

def Object.record (object : Object I C) (call : Call I) : Object I C :=
  { object with trace := object.trace ++ [call] }

variable (clock : Nat → Int) (states : States I Event C)

def access : (request : Access C) → Object I C → request.Reply I × Object I C
  | .state, object => (object.currentState, object)
  | .timeSinceStateEnter, object =>
    (clock object.readings - object.enterTimepoint, { object with readings := object.readings + 1 })
  | .context, object => (object.context, object)
  | .setContext value, object => ((), { object with context := value })

/-- The requests of a state, given what becomes of a dispatched event. -/
def answer (calls : Event → Object I C → Option (Object I C)) :
    (request : Request Event C) → Object I C → Option (request.Reply I × Object I C)
  | .access request, object => some (access clock request object)
  | .dispatch event, object => (calls event object).map ((), ·)

/-- The two assignments between the exit and the entry. -/
def moveTo (next : I) (object : Object I C) : Object I C :=
  { object with
    currentState := next
    enterTimepoint := clock object.readings
    readings := object.readings + 1 }

def transition (calls : Event → Object I C → Option (Object I C)) (next : I) (object : Object I C) :
    Option (Object I C) := do
  let prev := object.currentState
  let (_, object) ← attempt (answer clock calls) (states.onExit prev next) (object.record (.onExit prev next))
  let object := moveTo clock next object
  let entered := object.record (.onEnter next prev object.enterTimepoint)
  let (_, object) ← attempt (answer clock calls) (states.onEnter next prev) entered
  return object

/-- `dispatch`, given what becomes of the events that are dispatched inside of it. -/
def dispatch (calls : Event → Object I C → Option (Object I C)) (event : Event) (object : Object I C) :
    Option (Object I C) := do
  let i := object.currentState
  let (next, object) ← attempt (answer clock calls) (states.dispatch i event) (object.record (.dispatch i))
  match next with
  | some next => transition clock states calls next object
  | none => return object

/-- A call of `dispatch` with room for so many calls inside of each other. -/
def call : Nat → Event → Object I C → Option (Object I C)
  | 0, _, _ => none
  | depth + 1, event, object => dispatch clock states (call depth) event object

/-- The constructor. The initial state is not entered. -/
def construct (init : I) (context : C) : Object I C :=
  { currentState := init, enterTimepoint := clock 0, context, readings := 1, trace := [] }

/-- The events are dispatched one after the other, and every call returns. -/
def Leads : List Event → Object I C → Object I C → Prop
  | [], object, final => final = object
  | event :: rest, object, final =>
    ∃ depth middle, call clock states depth event object = some middle ∧ Leads rest middle final

/-! ## What the states are told -/

/-- The state of a machine, and since when. -/
structure Standing (I : Type) where
  state : I
  since : Int

def Object.standing (object : Object I C) : Standing I := ⟨object.currentState, object.enterTimepoint⟩

/-- The calls of the functions of the states on the way from one state to another. Events are given to the
state that the machine is in. An exit is that of this state and told the next one, and the entry of the next
one is told the state that was left before. What happens between them is a way of its own from the state
that is left, and its end is forgotten. -/
inductive Journey (nested : Prop) : Standing I → List (Call I) → Standing I → Prop where
  | stay : Journey nested start [] start
  | asks (before : Journey nested start trace here) :
      Journey nested start (trace ++ [.dispatch here.state]) here
  | moves (next : I) (time : Int) (before : Journey nested start trace here)
      (within : Journey nested here inside forgotten) (allowed : inside = [] ∨ nested) :
      Journey nested start (trace ++ (.onExit here.state next :: inside ++ [.onEnter next here.state time]))
        ⟨next, time⟩

/-- The last entry that was begun. -/
def lastEntered (start : Standing I) (trace : List (Call I)) : Standing I :=
  trace.foldl (fun standing call =>
    match call with
    | .onEnter i _ time => ⟨i, time⟩
    | _ => standing) start

variable {nested : Prop} {start here there : Standing I} {trace more : List (Call I)}

theorem journey_trans (first : Journey nested start trace here) (second : Journey nested here more there) :
    Journey nested start (trace ++ more) there := by
  induction second with
  | stay =>
    rw [List.append_nil]
    exact first
  | asks before ih =>
    rw [← List.append_assoc]
    exact .asks (ih first)
  | moves next time before within allowed ih =>
    rw [← List.append_assoc]
    exact .moves next time (ih first) within allowed

/-- Also behind a transition that ended inside of another one. -/
theorem journey_lastEntered (journey : Journey nested start trace there) : lastEntered start trace = there := by
  induction journey with
  | stay => rfl
  | asks before ih =>
    unfold lastEntered
    rw [List.foldl_append]
    exact ih
  | moves next time before within allowed =>
    unfold lastEntered
    rw [List.foldl_append, List.foldl_append]
    rfl

/-! ## What the functions of a state do -/

/-- An object goes on along a way. -/
def Continues (nested : Prop) (object after : Object I C) : Prop :=
  ∃ more, after.trace = object.trace ++ more ∧ Journey nested object.standing more after.standing

variable {clock} {states} {object middle after final : Object I C} {init : I} {context : C} {events : List Event}
  {calls : Event → Object I C → Option (Object I C)}

/-- What changes neither the calls nor the state. -/
theorem continues_of_same (trace : after.trace = object.trace) (standing : after.standing = object.standing) :
    Continues nested object after := by
  refine ⟨[], by rw [List.append_nil, trace], ?_⟩
  rw [standing]
  exact .stay

theorem continues_trans (first : Continues nested object middle) (second : Continues nested middle after) :
    Continues nested object after := by
  obtain ⟨trace, told, journey⟩ := first
  obtain ⟨more, toldMore, rest⟩ := second
  exact ⟨trace ++ more, by rw [toldMore, told, List.append_assoc], journey_trans journey rest⟩

theorem access_keeps (clock : Nat → Int) (request : Access C) (object : Object I C) :
    (access clock request object).2.trace = object.trace ∧
      (access clock request object).2.standing = object.standing := by
  cases request <;> exact ⟨rfl, rfl⟩

theorem action_continues {A : Type} {action : Action I Event C A} {value : A}
    (inner : ∀ event object after, calls event object = some after → Continues nested object after)
    (ends : attempt (answer clock calls) action object = some (value, after)) : Continues nested object after := by
  refine attempt_preserves (Continues nested object) (fun request here reply there answered before => ?_) action ends
    (continues_of_same rfl rfl)
  cases request with
  | access request =>
    obtain rfl : (access clock request here).2 = there := congrArg Prod.snd (Option.some.inj answered)
    obtain ⟨trace, standing⟩ := access_keeps clock request here
    exact continues_trans before (continues_of_same trace standing)
  | dispatch event =>
    obtain ⟨middle, called, same⟩ := Option.map_eq_some_iff.mp answered
    cases same
    exact continues_trans before (inner event here _ called)

/-- No function that is called when a state is left dispatches an event. -/
def QuietExits (states : States I Event C) : Prop :=
  ∀ i next, (states.onExit i next).Issues fun request => ∃ access, request = .access access

/-- An exit that dispatches nothing leaves the machine where it is. -/
theorem quiet_keeps {A : Type} {action : Action I Event C A} {value : A}
    (quiet : action.Issues fun request => ∃ access, request = .access access)
    (ends : attempt (answer clock calls) action object = some (value, after)) :
    after.trace = object.trace ∧ after.standing = object.standing := by
  refine attempt_issues (fun here => here.trace = object.trace ∧ here.standing = object.standing)
    (fun request here reply there only answered before => ?_) quiet ends ⟨rfl, rfl⟩
  obtain ⟨request, rfl⟩ := only
  obtain rfl : (access clock request here).2 = there := congrArg Prod.snd (Option.some.inj answered)
  obtain ⟨trace, standing⟩ := access_keeps clock request here
  exact ⟨trace.trans before.1, standing.trans before.2⟩

/-- The exit, with what is dispatched in it. -/
theorem exit_continues {i next : I} {value : Unit} (exits : QuietExits states ∨ nested)
    (inner : ∀ event object after, calls event object = some after → Continues nested object after)
    (ends : attempt (answer clock calls) (states.onExit i next) object = some (value, after)) :
    ∃ inside, after.trace = object.trace ++ inside ∧ Journey nested object.standing inside after.standing ∧
      (inside = [] ∨ nested) := by
  rcases exits with quiet | nesting
  · obtain ⟨trace, standing⟩ := quiet_keeps (quiet i next) ends
    refine ⟨[], by rw [List.append_nil, trace], ?_, .inl rfl⟩
    rw [standing]
    exact .stay
  · obtain ⟨inside, trace, journey⟩ := action_continues inner ends
    exact ⟨inside, trace, journey, .inr nesting⟩

/-! ## What a call does -/

theorem transition_continues {next : I} (exits : QuietExits states ∨ nested)
    (inner : ∀ event object after, calls event object = some after → Continues nested object after)
    (ends : transition clock states calls next object = some after) : Continues nested object after := by
  unfold transition at ends
  obtain ⟨⟨_, left⟩, exited, rest⟩ := Option.bind_eq_some_iff.mp ends
  obtain ⟨⟨_, entered⟩, entering, same⟩ := Option.bind_eq_some_iff.mp rest
  cases same
  obtain ⟨inside, trace, journey, allowed⟩ := exit_continues exits inner exited
  refine continues_trans ?_ (action_continues inner entering)
  refine ⟨_, ?_, .moves next (clock left.readings) .stay journey allowed⟩
  show left.trace ++ _ = _
  rw [trace]
  simp [Object.record, moveTo, Object.standing]

theorem dispatch_continues {event : Event} (exits : QuietExits states ∨ nested)
    (inner : ∀ event object after, calls event object = some after → Continues nested object after)
    (ends : dispatch clock states calls event object = some after) : Continues nested object after := by
  unfold dispatch at ends
  obtain ⟨⟨next, told⟩, asked, rest⟩ := Option.bind_eq_some_iff.mp ends
  have marked : Continues nested object (object.record (.dispatch object.currentState)) :=
    ⟨_, rfl, .asks .stay⟩
  have before : Continues nested object told := continues_trans marked (action_continues inner asked)
  cases next with
  | some next => exact continues_trans before (transition_continues exits inner rest)
  | none =>
    cases rest
    exact before

theorem call_continues (exits : QuietExits states ∨ nested) (depth : Nat) (event : Event) (object after : Object I C)
    (ends : call clock states depth event object = some after) : Continues nested object after := by
  induction depth generalizing event object after with
  | zero => cases ends
  | succ depth ih => exact dispatch_continues exits ih ends

theorem leads_continues (exits : QuietExits states ∨ nested) (leads : Leads clock states events object final) :
    Continues nested object final := by
  induction events generalizing object with
  | nil =>
    cases leads
    exact continues_of_same rfl rfl
  | cons event rest ih =>
    obtain ⟨depth, middle, called, later⟩ := leads
    exact continues_trans (call_continues exits depth event object middle called) (ih later)

/-- Whatever the functions of the states dispatch, the states are told a journey, and the machine is in the
state whose entry was begun last, since then. Calls come between an exit and the entry behind it only if
some exit dispatches events. -/
theorem states_told (leads : Leads clock states events (construct clock init context) final) :
    Journey (¬QuietExits states) ⟨init, clock 0⟩ final.trace final.standing ∧
      final.standing = lastEntered ⟨init, clock 0⟩ final.trace := by
  obtain ⟨more, told, journey⟩ := leads_continues (Classical.em _) leads
  obtain rfl : final.trace = more := told
  exact ⟨journey, (journey_lastEntered journey).symm⟩

/-- Two states that go where an event says; the entry of one goes back to the other. -/
def testingStates : States Bool Bool Unit where
  dispatch i event := return if event = i then none else some event
  onEnter i _ := if i then Program.perform (Request.dispatch false) else return
  onExit _ _ := return

theorem states_told_testing :
    ∃ final : Object Bool Unit, final.currentState = false ∧ final.enterTimepoint = 2 ∧
      Leads Int.ofNat testingStates [true] (construct Int.ofNat false ()) final ∧
      Journey (¬QuietExits testingStates) ⟨false, 0⟩ final.trace final.standing ∧
      final.standing = lastEntered ⟨false, 0⟩ final.trace := by
  have leads : Leads Int.ofNat testingStates [true] (construct Int.ofNat false ())
      ⟨false, 2, (), 3, [.dispatch false, .onExit false true, .onEnter true false 1, .dispatch true,
        .onExit true false, .onEnter false true 2]⟩ :=
    ⟨2, _, rfl, rfl⟩
  exact ⟨_, rfl, rfl, leads, states_told leads⟩

end Emblib.VirtualStates
