import Emblib.FsmActions

/-! `fsm::v3::finite_state_machine` with `mixed_policy`: a variant of states, each with an
entry, an exit and event handlers. A handler and an entry may call the machine again, so a
call can contain further calls; an exit cannot. -/
namespace Emblib.FiniteStateMachine
open Programs FsmActions

variable {I : Type} {Value : I → Type} {Tag Event C : Type}

/-- The states of a machine and its handlers, as the class template checks them. A state need
not handle an event itself if there is a common handler. -/
structure Machine (Value : I → Type) (Tag Event C : Type) where
  tag : I → Tag
  uniqueTags : Function.Injective tag
  onEntry : I → Action Value Event C Unit
  onExit : I → ExitAction Value C
  onEvent : I → Event → Option (Action Value Event C (Option (Sigma Value)))
  commonOnEvent : Event → Option (Action Value Event C (Option (Sigma Value)))
  handled : ∀ i event, (onEvent i event).isSome ∨ (commonOnEvent event).isSome

/-! ## The machine -/

/-- The start of a call to an action, or the return of a handler. -/
inductive Call (I : Type) where
  | onEntry (i : I)
  | onExit (i : I)
  | onEvent (i : I)
  | commonOnEvent
  | returned (next : Option I)

/-- A call together with the number of calls to the machine around it. -/
structure Mark (I : Type) where
  level : Nat
  call : Call I

abbrev Object (Value : I → Type) (C : Type) := Traced Value C (Mark I)

section Calls
variable (machine : Machine Value Tag Event C)
  (calls : Command Value Event → Object Value C → Option (Object Value C)) (level : Nat)

def exitState (object : Object Value C) : Object Value C :=
  let i := object.state.1
  (run access (machine.onExit i) (object.record ⟨level, .onExit i⟩)).2

def enterState (object : Object Value C) : Option (Object Value C) :=
  let i := object.state.1
  (attempt (answer calls) (machine.onEntry i) (object.record ⟨level, .onEntry i⟩)).map (·.2)

/-- The visitor in `dispatch`, with the call that it makes. -/
def visitor (event : Event) (i : I) : Option (Call I × Action Value Event C (Option (Sigma Value))) :=
  match machine.onEvent i event with
  | some handler => some (.onEvent i, handler)
  | none =>
    match machine.commonOnEvent event with
    | some handler => some (.commonOnEvent, handler)
    | none => none

/-- The visitor's result; without a handler there is no transition. -/
def visit (event : Event) (object : Object Value C) : Option (Option (Sigma Value) × Object Value C) :=
  match visitor machine event object.state.1 with
  | some (call, handler) =>
    (attempt (answer calls) handler (object.record ⟨level, call⟩)).map fun (next, object) =>
      (next, object.record ⟨level, .returned (next.map (·.1))⟩)
  | none => some (none, object)

def dispatch (event : Event) (object : Object Value C) : Option (Object Value C) := do
  let (next, object) ← visit machine calls level event object
  match next with
  | some next => enterState machine calls level { exitState machine level object with state := next }
  | none => some object

def forceTransition (next : Sigma Value) (object : Object Value C) : Option (Object Value C) :=
  enterState machine calls level { exitState machine level object with state := next }

end Calls

/-- A call to the machine with room for so many calls inside of each other. -/
def call (machine : Machine Value Tag Event C) :
    Nat → Nat → Command Value Event → Object Value C → Option (Object Value C)
  | 0, _, _, _ => none
  | depth + 1, level, .dispatch event, object =>
    dispatch machine (call machine depth (level + 1)) level event object
  | depth + 1, level, .forceTransition next, object =>
    forceTransition machine (call machine depth (level + 1)) level next object

/-- `start_fsm`, called by the constructor of the derived class. -/
def startFsm (machine : Machine Value Tag Event C) (depth : Nat) (object : Object Value C) :
    Option (Object Value C) :=
  enterState machine (call machine depth 1) 0 object

def isInState [DecidableEq I] (object : Object Value C) (i : I) : Bool := decide (object.state.1 = i)

def stateTag (machine : Machine Value Tag Event C) (object : Object Value C) : Tag :=
  machine.tag object.state.1

/-- Commands from outside, which are not inside of any call. -/
def Leads (machine : Machine Value Tag Event C) :
    List (Command Value Event) → Object Value C → Object Value C → Prop :=
  Carries fun depth => call machine depth 0

/-- A machine is constructed with an initial state, started, and given commands. -/
def Runs (machine : Machine Value Tag Event C) (initial : Sigma Value) (context : C)
    (commands : List (Command Value Event)) (final : Object Value C) : Prop :=
  ∃ depth started, startFsm machine depth ⟨initial, context, []⟩ = some started ∧
    Leads machine commands started final

end Emblib.FiniteStateMachine
